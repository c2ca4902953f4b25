import BantamSyntax.Tree.Canonical
import BantamSyntax.Tree.Node

/-!
# Printers

The printers as they go through a tree, one for its dump and one for its source. A printer keeps the
indentation of the line it is at, and takes back every step that it went in.
-/
namespace BantamSyntax

/-- The state of a printer is its indentation, in steps. -/
abbrev PrinterM := StateM Int

namespace Printer

/-- Prints one step further in. -/
def deeper {α : Type} (x : PrinterM α) : PrinterM α := do
  modify (· + 1)
  let a ← x
  modify (· - 1)
  return a

def indented (width : Int) (text : String) : PrinterM String := do
  return Line.blanks ((← get) * width) ++ text

/-- The blanks for each step in a dump. -/
def dumpWidth : Int := 2

/-- A line and the texts under it, one step further in. -/
def branch (caption : String) (children : PrinterM (List String)) : PrinterM String := do
  let texts ← deeper children
  return "\n".intercalate ((← indented dumpWidth caption) :: texts)

end Printer

open Printer

/-! ## dumps -/

mutual

def Expr.printDump : Expr → PrinterM String
  | e@(.constant ..) => indented dumpWidth e.caption
  | e@(.var _) => indented dumpWidth e.caption
  | e@(.assign _ _ _ value) => branch e.caption do return [← value.printDump]
  | e@(.call _ _ _ _ arguments) => branch e.caption (Expr.printDumps arguments)
  | e@(.new ..) => indented dumpWidth e.caption
  | e@(.cast _ _ operand) => branch e.caption do return [← operand.printDump]
  | e@(.binary _ _ left right) =>
    branch e.caption do return [← left.printDump, ← right.printDump]
  | e@(.unary _ _ operand) => branch e.caption do return [← operand.printDump]

def Expr.printDumps : List Expr → PrinterM (List String)
  | [] => return []
  | e :: es => return (← e.printDump) :: (← Expr.printDumps es)

end

/-- The dump of an expression that may be left out. -/
def Expr.printDumpOr : Option Expr → PrinterM (List String)
  | none => return []
  | some e => return [← e.printDump]

mutual

def Stmt.printDump : Stmt → PrinterM String
  | s@(.block _ _ body) => branch s.caption (Stmt.printDumps body)
  | s@(.declare _ _ init) => branch s.caption do return [← init.printDump]
  | .expr _ e => e.printDump
  | s@(.ifThen _ condition consequent) =>
    branch s.caption do return [← condition.printDump, ← consequent.printDump]
  | s@(.ifElse _ condition consequent alternative) =>
    branch s.caption do
      return [← condition.printDump, ← consequent.printDump, ← alternative.printDump]
  | s@(.while _ condition body) =>
    branch s.caption do return [← condition.printDump, ← body.printDump]
  | s@(.for _ init condition update body) =>
    branch s.caption do
      return (← Expr.printDumpOr init) ++ (← Expr.printDumpOr condition)
        ++ (← Expr.printDumpOr update) ++ [← body.printDump]
  | s@(.break _) => indented dumpWidth s.caption
  | s@(.return _ value) => branch s.caption (Expr.printDumpOr value)

def Stmt.printDumps : List Stmt → PrinterM (List String)
  | [] => return []
  | s :: ss => return (← s.printDump) :: (← Stmt.printDumps ss)

end

def Formal.printDump (f : Formal) : PrinterM String :=
  indented dumpWidth f.caption

def Member.printDump : Member → PrinterM String
  | m@(.field _ _ _ init) => branch m.caption (Expr.printDumpOr init)
  | m@(.method _ _ _ _ _ _ body) => branch m.caption (Stmt.printDumps body)

def ClassDecl.printDump (c : ClassDecl) : PrinterM String :=
  branch c.caption (c.members.mapM Member.printDump)

def Program.printDump (p : Program) : PrinterM String :=
  branch Program.caption (p.classes.mapM ClassDecl.printDump)

mutual

def Node.printDump : Node → PrinterM String
  | .program p => p.printDump
  | .classDecl c => c.printDump
  | .member m => m.printDump
  | .formal f => f.printDump
  | .stmt s => s.printDump
  | .expr e => e.printDump
  | .list kind _ elements => branch kind.className (Node.printDumps elements)

def Node.printDumps : List Node → PrinterM (List String)
  | [] => return []
  | n :: ns => return (← n.printDump) :: (← Node.printDumps ns)

end

/-! ## source -/

mutual

def Expr.printSource : Expr → PrinterM String
  | .constant _ _ spelling => return spelling
  | .var v => return qualify (v.receiver?.map Variable.name) v.name
  | .assign _ receiver name value =>
    return "(" ++ qualify (nonempty receiver) name ++ " = " ++ (← value.printSource) ++ ")"
  | .call _ receiver method _ arguments => do
    let texts ← Expr.printSources arguments
    return qualify (receiver.map Variable.name) method ++ "(" ++ ", ".intercalate texts ++ ")"
  | .new _ type => return "new " ++ type ++ "()"
  | .cast _ type operand => return "cast(" ++ type ++ ", " ++ (← operand.printSource) ++ ")"
  | .binary _ op left right =>
    return "(" ++ (← left.printSource) ++ " " ++ op.symbol ++ " " ++ (← right.printSource) ++ ")"
  | .unary _ op operand => do
    let text ← operand.printSource
    match op.side with
    | .before => return "(" ++ op.symbol ++ text ++ ")"
    | .after => return "(" ++ text ++ op.symbol ++ ")"

def Expr.printSources : List Expr → PrinterM (List String)
  | [] => return []
  | e :: es => return (← e.printSource) :: (← Expr.printSources es)

end

/-- The text of an expression that may be left out. -/
def Expr.printSourceOr : Option Expr → PrinterM String
  | none => return ""
  | some e => e.printSource

/-- A branch or a body stands one step further in than its head, unless it is a block. -/
def Stmt.nested {α : Type} (s : Stmt) (x : PrinterM α) : PrinterM α :=
  match s with
  | .block .. => x
  | _ => deeper x

mutual

def Stmt.printSource (width : Int) : Stmt → PrinterM String
  | .block _ _ body => do
    let opening ← indented width "\x7b"
    let texts ← deeper (Stmt.printSources width body)
    let closing ← indented width "\x7d"
    return "\n".intercalate (opening :: texts ++ [closing])
  | .declare _ name init => do
    indented width ("var " ++ name ++ " = " ++ (← init.printSource) ++ ";")
  | .expr _ e => do indented width ((← e.printSource) ++ ";")
  | .ifThen _ condition consequent => do
    let head ← indented width ("if (" ++ (← condition.printSource) ++ ")")
    let text ← consequent.nested (consequent.printSource width)
    return "\n".intercalate [head, text]
  | .ifElse _ condition consequent alternative => do
    let head ← indented width ("if (" ++ (← condition.printSource) ++ ")")
    let text ← consequent.nested (consequent.printSource width)
    let middle ← indented width "else"
    let last ← alternative.nested (alternative.printSource width)
    return "\n".intercalate [head, text, middle, last]
  | .while _ condition body => do
    let head ← indented width ("while (" ++ (← condition.printSource) ++ ")")
    let text ← body.nested (body.printSource width)
    return "\n".intercalate [head, text]
  | .for _ init condition update body => do
    let first ← Expr.printSourceOr init
    let second ← Expr.printSourceOr condition
    let third ← Expr.printSourceOr update
    let head ← indented width ("for (" ++ first ++ "; " ++ second ++ "; " ++ third ++ ")")
    let text ← body.nested (body.printSource width)
    return "\n".intercalate [head, text]
  | .break _ => indented width "break;"
  | .return _ none => indented width "return;"
  | .return _ (some value) => do
    indented width ("return " ++ (← value.printSource) ++ ";")

def Stmt.printSources (width : Int) : List Stmt → PrinterM (List String)
  | [] => return []
  | s :: ss => return (← s.printSource width) :: (← Stmt.printSources width ss)

end

def Formal.printSource (f : Formal) : PrinterM String :=
  return f.text

def Member.printSource (width : Int) : Member → PrinterM String
  | .field _ type name none => indented width (type ++ " " ++ name ++ ";")
  | .field _ type name (some init) => do
    indented width (type ++ " " ++ name ++ " = " ++ (← init.printSource) ++ ";")
  | .method _ type name _ formals _ body => do
    let texts ← formals.mapM Formal.printSource
    let head ← indented width
      (type ++ " " ++ name ++ "(" ++ ", ".intercalate texts ++ ") \x7b")
    let texts ← deeper (Stmt.printSources width body)
    let closing ← indented width "\x7d"
    return "\n".intercalate (head :: texts ++ [closing])

/-- A class stands at the margin, and its members one step further in than the printer is. -/
def ClassDecl.printSource (width : Int) (c : ClassDecl) : PrinterM String := do
  let texts ← deeper (c.members.mapM (Member.printSource width))
  return "\n".intercalate (("class " ++ c.heading ++ " \x7b") :: texts ++ ["\x7d"]) ++ "\n"

def Program.printSource (width : Int) (p : Program) : PrinterM String :=
  return "\n".intercalate (← p.classes.mapM (ClassDecl.printSource width))

mutual

/-- Lists have no text of their own, but the printer goes through what is in them. -/
def Node.printSource (width : Int) : Node → PrinterM (Option String)
  | .program p => return some (← p.printSource width)
  | .classDecl c => return some (← c.printSource width)
  | .member m => return some (← m.printSource width)
  | .formal f => return some (← f.printSource)
  | .stmt s => return some (← s.printSource width)
  | .expr e => return some (← e.printSource)
  | .list _ _ elements => do
    Node.passSources width elements
    return none

def Node.passSources (width : Int) : List Node → PrinterM Unit
  | [] => return ()
  | n :: ns => do
    let _ ← n.printSource width
    Node.passSources width ns

end

end BantamSyntax
