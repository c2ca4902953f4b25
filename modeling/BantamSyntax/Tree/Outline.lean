import BantamSyntax.Tree.Node

/-!
# Outlines

The shape of a syntax tree without the sorts of its nodes: at each node a label, a line and the
children in the order of the text. Trees are compared and listed by their outlines.
-/
namespace BantamSyntax

inductive Label where
  | list (kind : ListKind)
  | program
  | classDecl (name : String) (parent file : Option String)
  | field (type name : String)
  | method (type name : String)
  | formal (type name : String)
  | block
  | declare (name : String)
  | exprStmt
  | ifStmt
  | whileStmt
  | forStmt
  | breakStmt
  | returnStmt
  | constant (kind : ConstantKind) (spelling : String)
  | var (name : String)
  | assign (receiver : Option String) (name : String)
  | call (method : String)
  | new (type : String)
  | cast (type : String)
  | binary (op : BinaryOp)
  | unary (op : UnaryOp)
  deriving DecidableEq

/-- A child that a node could have and has not is kept as `absent`. -/
inductive Outline where
  | absent
  | node (label : Label) (line : Int) (children : List Outline)

/-! ## outlines of trees -/

def Variable.outline : Variable → Outline
  | .plain line name => .node (.var name) line [.absent]
  | .qualified line receiver name => .node (.var name) line [receiver.outline]

def Outline.orAbsent : Option Outline → Outline
  | none => .absent
  | some o => o

mutual

def Expr.outline : Expr → Outline
  | .constant line kind spelling => .node (.constant kind spelling) line []
  | .var v => v.outline
  | .assign line receiver name value => .node (.assign receiver name) line [value.outline]
  | .call line receiver method argumentsLine arguments =>
    .node (.call method) line
      [.orAbsent (receiver.map Variable.outline),
        .node (.list .expressions) argumentsLine (Expr.outlines arguments)]
  | .new line type => .node (.new type) line []
  | .cast line type operand => .node (.cast type) line [operand.outline]
  | .binary line op left right => .node (.binary op) line [left.outline, right.outline]
  | .unary line op operand => .node (.unary op) line [operand.outline]

def Expr.outlines : List Expr → List Outline
  | [] => []
  | e :: es => e.outline :: Expr.outlines es

end

/-- The outline of an expression that may be left out. -/
def Expr.outlineOr (e : Option Expr) : Outline :=
  .orAbsent (e.map Expr.outline)

mutual

def Stmt.outline : Stmt → Outline
  | .block line bodyLine body =>
    .node .block line [.node (.list .statements) bodyLine (Stmt.outlines body)]
  | .declare line name init => .node (.declare name) line [init.outline]
  | .expr line e => .node .exprStmt line [e.outline]
  | .ifThen line condition consequent =>
    .node .ifStmt line [condition.outline, consequent.outline, .absent]
  | .ifElse line condition consequent alternative =>
    .node .ifStmt line [condition.outline, consequent.outline, alternative.outline]
  | .while line condition body => .node .whileStmt line [condition.outline, body.outline]
  | .for line init condition update body =>
    .node .forStmt line
      [Expr.outlineOr init, Expr.outlineOr condition, Expr.outlineOr update, body.outline]
  | .break line => .node .breakStmt line []
  | .return line value => .node .returnStmt line [Expr.outlineOr value]

def Stmt.outlines : List Stmt → List Outline
  | [] => []
  | s :: ss => s.outline :: Stmt.outlines ss

end

def Formal.outline (f : Formal) : Outline :=
  .node (.formal f.type f.name) f.line []

def Member.outline : Member → Outline
  | .field line type name init => .node (.field type name) line [Expr.outlineOr init]
  | .method line type name formalsLine formals bodyLine body =>
    .node (.method type name) line
      [.node (.list .formals) formalsLine (formals.map Formal.outline),
        .node (.list .statements) bodyLine (Stmt.outlines body)]

def ClassDecl.outline (c : ClassDecl) : Outline :=
  .node (.classDecl c.name c.parent c.file) c.line
    [.node (.list .members) c.membersLine (c.members.map Member.outline)]

def Program.outline (p : Program) : Outline :=
  .node .program p.line
    [.node (.list .classes) p.classesLine (p.classes.map ClassDecl.outline)]

mutual

def Node.outline : Node → Outline
  | .program p => p.outline
  | .classDecl c => c.outline
  | .member m => m.outline
  | .formal f => f.outline
  | .stmt s => s.outline
  | .expr e => e.outline
  | .list kind line elements => .node (.list kind) line (Node.outlines elements)

def Node.outlines : List Node → List Outline
  | [] => []
  | n :: ns => n.outline :: Node.outlines ns

end

/-! ## comparison -/

namespace Label

/-- The label without the name of the file, which is no part of what a program is. -/
def bare : Label → Label
  | classDecl name parent _ => classDecl name parent none
  | l => l

end Label

namespace Outline

mutual

/-- Equality of trees: lines and file names do not count. -/
def same : Outline → Outline → Bool
  | absent, absent => true
  | node l _ cs, node m _ ds => l.bare = m.bare && sameAll cs ds
  | _, _ => false

def sameAll : List Outline → List Outline → Bool
  | [], [] => true
  | c :: cs, d :: ds => same c d && sameAll cs ds
  | _, _ => false

end

end Outline

/-- Nodes of one sort with the same parts; where they stand does not count. -/
def Node.same (m n : Node) : Bool :=
  m.outline.same n.outline

namespace Outline

/-! ## listing -/

/-- One line of a listing: a node, or a child that is absent. -/
structure Row where
  depth : Nat
  node : Option (Label × Int)

mutual

/-- The nodes in preorder. -/
def rows (depth : Nat) : Outline → List Row
  | absent => [⟨depth, none⟩]
  | node label line children => ⟨depth, some (label, line)⟩ :: rowsAll (depth + 1) children

def rowsAll (depth : Nat) : List Outline → List Row
  | [] => []
  | c :: cs => rows depth c ++ rowsAll depth cs

end

end Outline
end BantamSyntax
