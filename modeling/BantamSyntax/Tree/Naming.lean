import BantamSyntax.Text.Numeral
import BantamSyntax.Tree.Outline

/-!
# Names of nodes

What a node is called in listings, what is listed with it, and the methods under which visitors
meet it.
-/
namespace BantamSyntax

/-! ## words

A word is kept as it stands in the names of classes and as it stands in the names of methods.
-/

def ArithmeticOp.word : ArithmeticOp → String × String
  | .plus => ("Plus", "plus")
  | .minus => ("Minus", "minus")
  | .times => ("Times", "times")
  | .divide => ("Divide", "divide")
  | .modulus => ("Modulus", "modulus")

def ComparisonOp.word : ComparisonOp → String × String
  | .equal => ("Eq", "eq")
  | .notEqual => ("Ne", "ne")
  | .less => ("Lt", "lt")
  | .greater => ("Gt", "gt")
  | .lessOrEqual => ("Leq", "leq")
  | .greaterOrEqual => ("Geq", "geq")

def LogicalOp.word : LogicalOp → String × String
  | .and => ("And", "and")
  | .or => ("Or", "or")

/-- The words of a binary operator: those of its family, then its own. -/
def BinaryOp.words : BinaryOp → (String × String) × (String × String)
  | .arithmetic op => (("Arith", "arith"), op.word)
  | .comparison op => (("Comp", "comp"), op.word)
  | .logical op => (("Logic", "logic"), op.word)

def UnaryOp.word : UnaryOp → String × String
  | .negate => ("Neg", "neg")
  | .not => ("Not", "not")
  | .increment _ => ("Incr", "incr")
  | .decrement _ => ("Decr", "decr")

def ConstantKind.word : ConstantKind → String × String
  | .integer => ("Int", "int")
  | .boolean => ("Boolean", "boolean")
  | .string => ("String", "string")

def ListKind.word : ListKind → String × String
  | .classes => ("Class", "class")
  | .members => ("Member", "member")
  | .formals => ("Formal", "formal")
  | .statements => ("Stmt", "stmt")
  | .expressions => ("Expr", "expr")

def ListKind.className (k : ListKind) : String :=
  k.word.1 ++ "List"

def ConstantKind.className (k : ConstantKind) : String :=
  "Const" ++ k.word.1 ++ "Expr"

namespace Label

/-! ## classes of nodes -/

def className : Label → String
  | list kind => kind.className
  | program => "Program"
  | classDecl .. => "Class_"
  | field .. => "Field"
  | method .. => "Method"
  | formal .. => "Formal"
  | block => "BlockStmt"
  | declare _ => "DeclStmt"
  | exprStmt => "ExprStmt"
  | ifStmt => "IfStmt"
  | whileStmt => "WhileStmt"
  | forStmt => "ForStmt"
  | breakStmt => "BreakStmt"
  | returnStmt => "ReturnStmt"
  | constant kind _ => kind.className
  | var _ => "VarExpr"
  | assign .. => "AssignExpr"
  | call _ => "DispatchExpr"
  | new _ => "NewExpr"
  | cast _ => "CastExpr"
  | binary op => "Binary" ++ op.words.1.1 ++ op.words.2.1 ++ "Expr"
  | unary op => "Unary" ++ op.word.1 ++ "Expr"

/-! ## visitors -/

/-- The methods that meet a node, each falling back on the next. -/
def visits : Label → List String
  | list kind => ["visit_" ++ kind.word.2 ++ "_list", "visit_list_node"]
  | program => ["visit_program"]
  | classDecl .. => ["visit_class"]
  | field .. => ["visit_field"]
  | method .. => ["visit_method"]
  | formal .. => ["visit_formal"]
  | block => ["visit_block_stmt"]
  | declare _ => ["visit_decl_stmt"]
  | exprStmt => ["visit_expr_stmt"]
  | ifStmt => ["visit_if_stmt"]
  | whileStmt => ["visit_while_stmt"]
  | forStmt => ["visit_for_stmt"]
  | breakStmt => ["visit_break_stmt"]
  | returnStmt => ["visit_return_stmt"]
  | constant kind _ => ["visit_const_" ++ kind.word.2 ++ "_expr", "visit_const_expr"]
  | var _ => ["visit_var_expr"]
  | assign .. => ["visit_assign_expr"]
  | call _ => ["visit_dispatch_expr"]
  | new _ => ["visit_new_expr"]
  | cast _ => ["visit_cast_expr"]
  | binary op =>
    let family := "visit_binary_" ++ op.words.1.2
    [family ++ "_" ++ op.words.2.2 ++ "_expr", family ++ "_expr", "visit_binary_expr"]
  | unary op => ["visit_unary_" ++ op.word.2 ++ "_expr", "visit_unary_expr"]

/-! ## listed values -/

inductive Scalar where
  | none
  | text (s : String)
  | number (n : Int)
  | truth (b : Bool)

def Scalar.ofText? : Option String → Scalar
  | Option.none => none
  | some s => text s

/-- What is listed with a node; an integer constant must have a value. -/
def scalars : Label → Except Numeral.Fault (List Scalar)
  | classDecl name parent file => .ok [.text name, .ofText? parent, .ofText? file]
  | field type name => .ok [.text type, .text name]
  | method type name => .ok [.text type, .text name]
  | formal type name => .ok [.text type, .text name]
  | declare name => .ok [.text name]
  | constant .integer spelling => do return [.text spelling, .number (← Numeral.read spelling)]
  | constant .boolean spelling => .ok [.text spelling, .truth (spelling = "true")]
  | constant .string spelling => .ok [.text spelling]
  | var name => .ok [.text name]
  | assign receiver name => .ok [.ofText? receiver, .text name]
  | call m => .ok [.text m]
  | new type => .ok [.text type]
  | cast type => .ok [.text type]
  | unary (.increment side) => .ok [.truth (side = .after)]
  | unary (.decrement side) => .ok [.truth (side = .after)]
  | _ => .ok []

end Label
end BantamSyntax
