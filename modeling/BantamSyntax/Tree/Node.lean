import BantamSyntax.Tree.Basic

/-!
# Nodes

A node of a syntax tree of any sort, its children under their names, and the paths that lead to a
node from another.
-/
namespace BantamSyntax

inductive ListKind where
  | classes
  | members
  | formals
  | statements
  | expressions
  deriving DecidableEq

/-- A list that stands alone may hold nodes of any sort. -/
inductive Node where
  | program (p : Program)
  | classDecl (c : ClassDecl)
  | member (m : Member)
  | formal (f : Formal)
  | stmt (s : Stmt)
  | expr (e : Expr)
  | list (kind : ListKind) (line : Int) (elements : List Node)

namespace Node

/-! ## children -/

def ofExprs (line : Int) (es : List Expr) : Node :=
  .list .expressions line (es.map .expr)

def ofStmts (line : Int) (ss : List Stmt) : Node :=
  .list .statements line (ss.map .stmt)

def ofFormals (line : Int) (fs : List Formal) : Node :=
  .list .formals line (fs.map .formal)

def ofVariable (v : Variable) : Node :=
  .expr (.var v)

/-- The children of a node that is no list; one that is absent is named too. -/
def fields : Node → List (String × Option Node)
  | .program p => [("class_list", some (.list .classes p.classesLine (p.classes.map .classDecl)))]
  | .classDecl c =>
    [("member_list", some (.list .members c.membersLine (c.members.map .member)))]
  | .member (.field _ _ _ init) => [("init", init.map .expr)]
  | .member (.method _ _ _ formalsLine formals bodyLine body) =>
    [("formal_list", some (ofFormals formalsLine formals)),
      ("stmt_list", some (ofStmts bodyLine body))]
  | .formal _ => []
  | .stmt (.block _ bodyLine body) => [("stmt_list", some (ofStmts bodyLine body))]
  | .stmt (.declare _ _ init) => [("init", some (.expr init))]
  | .stmt (.expr _ e) => [("expr", some (.expr e))]
  | .stmt (.ifThen _ condition consequent) =>
    [("pred_expr", some (.expr condition)), ("then_stmt", some (.stmt consequent)),
      ("else_stmt", none)]
  | .stmt (.ifElse _ condition consequent alternative) =>
    [("pred_expr", some (.expr condition)), ("then_stmt", some (.stmt consequent)),
      ("else_stmt", some (.stmt alternative))]
  | .stmt (.while _ condition body) =>
    [("pred_expr", some (.expr condition)), ("body_stmt", some (.stmt body))]
  | .stmt (.for _ init condition update body) =>
    [("init_expr", init.map .expr), ("pred_expr", condition.map .expr),
      ("update_expr", update.map .expr), ("body_stmt", some (.stmt body))]
  | .stmt (.break _) => []
  | .stmt (.return _ value) => [("expr", value.map .expr)]
  | .expr (.constant ..) => []
  | .expr (.var v) => [("ref", v.receiver?.map ofVariable)]
  | .expr (.assign _ _ _ value) => [("expr", some (.expr value))]
  | .expr (.call _ receiver _ argumentsLine arguments) =>
    [("ref_expr", receiver.map ofVariable),
      ("actual_list", some (ofExprs argumentsLine arguments))]
  | .expr (.new ..) => []
  | .expr (.cast _ _ operand) => [("expr", some (.expr operand))]
  | .expr (.binary _ _ left right) =>
    [("left_expr", some (.expr left)), ("right_expr", some (.expr right))]
  | .expr (.unary _ _ operand) => [("expr", some (.expr operand))]
  | .list .. => []

def elements : Node → List Node
  | .list _ _ elements => elements
  | _ => []

/-! ## paths -/

/-- A place in a list may be counted from its end, by a negative number. -/
inductive Step where
  | field (name : String)
  | index (i : Int)

inductive PathFailure where
  | noField (name : String)
  | outOfRange
  deriving DecidableEq

def PathFailure.message : PathFailure → String
  | .noField name => "no child " ++ name
  | .outOfRange => "list index out of range"

def step (n : Node) : Step → Except PathFailure Node
  | .field name =>
    match (n.fields.lookup name).join with
    | some child => .ok child
    | none => .error (.noField name)
  | .index i =>
    let place := if i < 0 then i + n.elements.length else i
    if place < 0 then .error .outOfRange
    else match n.elements[place.toNat]? with
      | some child => .ok child
      | none => .error .outOfRange

def follow (n : Node) (path : List Step) : Except PathFailure Node :=
  path.foldlM step n

end Node
end BantamSyntax
