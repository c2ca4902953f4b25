import BantamSyntax.Tree.Dump

/-!
# Canonical source

A tree as program text again. Each operator and each assignment stands in parentheses, so that the
text needs no precedence to be read.
-/
namespace BantamSyntax

/-! ## expressions -/

mutual

def Expr.source : Expr → String
  | .constant _ _ spelling => spelling
  | .var v => qualify (v.receiver?.map Variable.name) v.name
  | .assign _ receiver name value =>
    "(" ++ qualify (nonempty receiver) name ++ " = " ++ value.source ++ ")"
  | .call _ receiver method _ arguments =>
    qualify (receiver.map Variable.name) method ++ "(" ++ Expr.sources arguments ++ ")"
  | .new _ type => "new " ++ type ++ "()"
  | .cast _ type operand => "cast(" ++ type ++ ", " ++ operand.source ++ ")"
  | .binary _ op left right =>
    "(" ++ left.source ++ " " ++ op.symbol ++ " " ++ right.source ++ ")"
  | .unary _ op operand =>
    match op.side with
    | .before => "(" ++ op.symbol ++ operand.source ++ ")"
    | .after => "(" ++ operand.source ++ op.symbol ++ ")"

/-- Arguments, with a comma between each two. -/
def Expr.sources : List Expr → String
  | [] => ""
  | [e] => e.source
  | e :: es => e.source ++ ", " ++ Expr.sources es

end

/-- The text of an expression that may be left out. -/
def Expr.sourceOr (e : Option Expr) : String :=
  (e.map Expr.source).getD ""

/-! ## statements -/

mutual

/-- A branch or a body stands one step deeper than its head, unless it is a block. -/
def Stmt.lines (depth : Nat) : Stmt → List Line
  | .block _ _ body => ⟨depth, "\x7b"⟩ :: Stmt.linesAll (depth + 1) body ++ [⟨depth, "\x7d"⟩]
  | .declare _ name init => [⟨depth, "var " ++ name ++ " = " ++ init.source ++ ";"⟩]
  | .expr _ e => [⟨depth, e.source ++ ";"⟩]
  | .ifThen _ condition consequent =>
    ⟨depth, "if (" ++ condition.source ++ ")"⟩ :: consequent.lines (consequent.depthUnder depth)
  | .ifElse _ condition consequent alternative =>
    ⟨depth, "if (" ++ condition.source ++ ")"⟩ :: consequent.lines (consequent.depthUnder depth)
      ++ ⟨depth, "else"⟩ :: alternative.lines (alternative.depthUnder depth)
  | .while _ condition body =>
    ⟨depth, "while (" ++ condition.source ++ ")"⟩ :: body.lines (body.depthUnder depth)
  | .for _ init condition update body =>
    ⟨depth, "for (" ++ Expr.sourceOr init ++ "; " ++ Expr.sourceOr condition ++ "; "
        ++ Expr.sourceOr update ++ ")"⟩
      :: body.lines (body.depthUnder depth)
  | .break _ => [⟨depth, "break;"⟩]
  | .return _ none => [⟨depth, "return;"⟩]
  | .return _ (some value) => [⟨depth, "return " ++ value.source ++ ";"⟩]

def Stmt.linesAll (depth : Nat) : List Stmt → List Line
  | [] => []
  | s :: ss => s.lines depth ++ Stmt.linesAll depth ss

end

/-! ## classes -/

def Member.lines (depth : Nat) : Member → List Line
  | .field _ type name none => [⟨depth, type ++ " " ++ name ++ ";"⟩]
  | .field _ type name (some init) =>
    [⟨depth, type ++ " " ++ name ++ " = " ++ init.source ++ ";"⟩]
  | .method _ type name _ formals _ body =>
    ⟨depth, type ++ " " ++ name ++ "(" ++ Formal.texts formals ++ ") \x7b"⟩
      :: Stmt.linesAll (depth + 1) body ++ [⟨depth, "\x7d"⟩]

/-- A class begins and ends at the margin whatever the indentation, and ends its last line. -/
def ClassDecl.source (width indent : Int) (c : ClassDecl) : String :=
  let members := (c.members.flatMap (Member.lines 1)).map (Line.render width indent)
  "\n".intercalate (("class " ++ c.heading ++ " \x7b") :: members ++ ["\x7d"]) ++ "\n"

def Program.source (width indent : Int) (p : Program) : String :=
  "\n".intercalate (p.classes.map (ClassDecl.source width indent))

/-- Lists have no text of their own. -/
def Node.source? (width indent : Int) : Node → Option String
  | .program p => some (p.source width indent)
  | .classDecl c => some (c.source width indent)
  | .member m => some (Line.renderAll width indent (m.lines 0))
  | .formal f => some f.text
  | .stmt s => some (Line.renderAll width indent (s.lines 0))
  | .expr e => some e.source
  | .list .. => none

/-- The indentation of program text that is asked for without one. -/
def standardWidth : Int := 4

end BantamSyntax
