import BantamSyntax.Text.Layout
import BantamSyntax.Tree.Naming

/-!
# Tree dumps

A tree as indented lines, one for each node. Lists have no line of their own inside a tree,
expression statements show as their expressions, and parameters and receivers stand in the line of
the node they belong to.
-/
namespace BantamSyntax

/-- A name reached through a receiver, if there is one. -/
def qualify (receiver : Option String) (name : String) : String :=
  match receiver with
  | none => name
  | some r => r ++ "." ++ name

/-- An empty name counts as none. -/
def nonempty (name : Option String) : Option String :=
  name.filter (· ≠ "")

/-! ## captions -/

/-- What the line of a node says. -/
def Expr.caption : Expr → String
  | .constant _ kind spelling => kind.className ++ "(" ++ spelling ++ ")"
  | .var v => "Var(" ++ qualify (v.receiver?.map Variable.name) v.name ++ ")"
  | .assign _ receiver name _ => "Assign(" ++ qualify (nonempty receiver) name ++ ")"
  | .call _ receiver method .. => "Call(" ++ qualify (receiver.map Variable.name) method ++ ")"
  | .new _ type => "New(" ++ type ++ ")"
  | .cast _ type _ => "Cast(" ++ type ++ ")"
  | .binary _ op .. => "Binary(" ++ op.symbol ++ ")"
  | .unary _ op _ =>
    let place := match op.side with
      | .before => "Unary("
      | .after => "Postfix("
    place ++ op.symbol ++ ")"

def Stmt.caption : Stmt → String
  | .block .. => "Block"
  | .declare _ name _ => "VarDecl(" ++ name ++ ")"
  | .expr _ e => e.caption
  | .ifThen .. => "If"
  | .ifElse .. => "If"
  | .while .. => "While"
  | .for .. => "For"
  | .break _ => "Break"
  | .return .. => "Return"

def Formal.text (f : Formal) : String :=
  f.type ++ " " ++ f.name

def Formal.texts (fs : List Formal) : String :=
  ", ".intercalate (fs.map Formal.text)

def Formal.caption (f : Formal) : String :=
  "Formal " ++ f.text

def Member.caption : Member → String
  | .field _ type name _ => "Field " ++ type ++ " " ++ name
  | .method _ type name _ formals .. =>
    "Method " ++ type ++ " " ++ name ++ "(" ++ Formal.texts formals ++ ")"

/-- The name of a class with its parent's, as a class begins. -/
def ClassDecl.heading (c : ClassDecl) : String :=
  match nonempty c.parent with
  | none => c.name
  | some parent => c.name ++ " extends " ++ parent

def ClassDecl.caption (c : ClassDecl) : String :=
  "Class " ++ c.heading

def Program.caption : String :=
  "Program"

/-! ## expressions -/

mutual

def Expr.dump (depth : Nat) : Expr → List Line
  | e@(.constant ..) => [⟨depth, e.caption⟩]
  | e@(.var _) => [⟨depth, e.caption⟩]
  | e@(.assign _ _ _ value) => ⟨depth, e.caption⟩ :: value.dump (depth + 1)
  | e@(.call _ _ _ _ arguments) => ⟨depth, e.caption⟩ :: Expr.dumpAll (depth + 1) arguments
  | e@(.new ..) => [⟨depth, e.caption⟩]
  | e@(.cast _ _ operand) => ⟨depth, e.caption⟩ :: operand.dump (depth + 1)
  | e@(.binary _ _ left right) =>
    ⟨depth, e.caption⟩ :: left.dump (depth + 1) ++ right.dump (depth + 1)
  | e@(.unary _ _ operand) => ⟨depth, e.caption⟩ :: operand.dump (depth + 1)

def Expr.dumpAll (depth : Nat) : List Expr → List Line
  | [] => []
  | e :: es => e.dump depth ++ Expr.dumpAll depth es

end

/-- The dump of an expression that may be left out. -/
def Expr.dumpOr (depth : Nat) (e : Option Expr) : List Line :=
  (e.map (Expr.dump depth)).getD []

/-! ## statements -/

mutual

def Stmt.dump (depth : Nat) : Stmt → List Line
  | s@(.block _ _ body) => ⟨depth, s.caption⟩ :: Stmt.dumpAll (depth + 1) body
  | s@(.declare _ _ init) => ⟨depth, s.caption⟩ :: init.dump (depth + 1)
  | .expr _ e => e.dump depth
  | s@(.ifThen _ condition consequent) =>
    ⟨depth, s.caption⟩ :: condition.dump (depth + 1) ++ consequent.dump (depth + 1)
  | s@(.ifElse _ condition consequent alternative) =>
    ⟨depth, s.caption⟩ :: condition.dump (depth + 1) ++ consequent.dump (depth + 1)
      ++ alternative.dump (depth + 1)
  | s@(.while _ condition body) =>
    ⟨depth, s.caption⟩ :: condition.dump (depth + 1) ++ body.dump (depth + 1)
  | s@(.for _ init condition update body) =>
    ⟨depth, s.caption⟩ :: Expr.dumpOr (depth + 1) init ++ Expr.dumpOr (depth + 1) condition
      ++ Expr.dumpOr (depth + 1) update ++ body.dump (depth + 1)
  | s@(.break _) => [⟨depth, s.caption⟩]
  | s@(.return _ value) => ⟨depth, s.caption⟩ :: Expr.dumpOr (depth + 1) value

def Stmt.dumpAll (depth : Nat) : List Stmt → List Line
  | [] => []
  | s :: ss => s.dump depth ++ Stmt.dumpAll depth ss

end

/-! ## classes -/

def Formal.dump (depth : Nat) (f : Formal) : List Line :=
  [⟨depth, f.caption⟩]

def Member.dump (depth : Nat) : Member → List Line
  | m@(.field _ _ _ init) => ⟨depth, m.caption⟩ :: Expr.dumpOr (depth + 1) init
  | m@(.method _ _ _ _ _ _ body) => ⟨depth, m.caption⟩ :: Stmt.dumpAll (depth + 1) body

def ClassDecl.dump (depth : Nat) (c : ClassDecl) : List Line :=
  ⟨depth, c.caption⟩ :: c.members.flatMap (Member.dump (depth + 1))

def Program.dump (depth : Nat) (p : Program) : List Line :=
  ⟨depth, Program.caption⟩ :: p.classes.flatMap (ClassDecl.dump (depth + 1))

/-! ## nodes -/

mutual

def Node.dump (depth : Nat) : Node → List Line
  | .program p => p.dump depth
  | .classDecl c => c.dump depth
  | .member m => m.dump depth
  | .formal f => f.dump depth
  | .stmt s => s.dump depth
  | .expr e => e.dump depth
  | .list kind _ elements => ⟨depth, kind.className⟩ :: Node.dumpAll (depth + 1) elements

def Node.dumpAll (depth : Nat) : List Node → List Line
  | [] => []
  | n :: ns => n.dump depth ++ Node.dumpAll depth ns

end

/-- The dump as a text, two blanks for each step of depth. -/
def Node.dumpText (n : Node) (indent : Int := 0) : String :=
  Line.renderAll 2 indent (n.dump 0)

end BantamSyntax
