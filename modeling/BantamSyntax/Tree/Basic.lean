/-!
# Syntax trees

The trees of Bantam programs. Every node knows the line it starts on, and so does every list of
nodes that has a place of its own in the text.
-/
namespace BantamSyntax

/-! ## operators -/

inductive ArithmeticOp where
  | plus
  | minus
  | times
  | divide
  | modulus
  deriving DecidableEq

inductive ComparisonOp where
  | equal
  | notEqual
  | less
  | greater
  | lessOrEqual
  | greaterOrEqual
  deriving DecidableEq

inductive LogicalOp where
  | and
  | or
  deriving DecidableEq

inductive BinaryOp where
  | arithmetic (op : ArithmeticOp)
  | comparison (op : ComparisonOp)
  | logical (op : LogicalOp)
  deriving DecidableEq

/-- Where an increment or decrement stands: it acts before or after its operand is used. -/
inductive Side where
  | before
  | after
  deriving DecidableEq

inductive UnaryOp where
  | negate
  | not
  | increment (side : Side)
  | decrement (side : Side)
  deriving DecidableEq

def BinaryOp.symbol : BinaryOp → String
  | .arithmetic .plus => "+"
  | .arithmetic .minus => "-"
  | .arithmetic .times => "*"
  | .arithmetic .divide => "/"
  | .arithmetic .modulus => "%"
  | .comparison .equal => "=="
  | .comparison .notEqual => "!="
  | .comparison .less => "<"
  | .comparison .greater => ">"
  | .comparison .lessOrEqual => "<="
  | .comparison .greaterOrEqual => ">="
  | .logical .and => "&&"
  | .logical .or => "||"

def UnaryOp.symbol : UnaryOp → String
  | .negate => "-"
  | .not => "!"
  | .increment _ => "++"
  | .decrement _ => "--"

def UnaryOp.side : UnaryOp → Side
  | .increment side => side
  | .decrement side => side
  | _ => .before

/-! ## expressions -/

inductive ConstantKind where
  | integer
  | boolean
  | string
  deriving DecidableEq

/-- A variable, which may be reached through a receiver. -/
inductive Variable where
  | plain (line : Int) (name : String)
  | qualified (line : Int) (receiver : Variable) (name : String)

namespace Variable

def line : Variable → Int
  | plain line _ => line
  | qualified line _ _ => line

def name : Variable → String
  | plain _ name => name
  | qualified _ _ name => name

def receiver? : Variable → Option Variable
  | plain _ _ => none
  | qualified _ receiver _ => some receiver

end Variable

/-- Constants are kept as they are spelled; an assignment keeps only its receiver's name. -/
inductive Expr where
  | constant (line : Int) (kind : ConstantKind) (spelling : String)
  | var (v : Variable)
  | assign (line : Int) (receiver : Option String) (name : String) (value : Expr)
  | call (line : Int) (receiver : Option Variable) (method : String) (argumentsLine : Int)
      (arguments : List Expr)
  | new (line : Int) (type : String)
  | cast (line : Int) (type : String) (operand : Expr)
  | binary (line : Int) (op : BinaryOp) (left right : Expr)
  | unary (line : Int) (op : UnaryOp) (operand : Expr)

/-! ## statements -/

inductive Stmt where
  | block (line bodyLine : Int) (body : List Stmt)
  | declare (line : Int) (name : String) (init : Expr)
  | expr (line : Int) (e : Expr)
  | ifThen (line : Int) (condition : Expr) (consequent : Stmt)
  | ifElse (line : Int) (condition : Expr) (consequent alternative : Stmt)
  | while (line : Int) (condition : Expr) (body : Stmt)
  | for (line : Int) (init condition update : Option Expr) (body : Stmt)
  | break (line : Int)
  | return (line : Int) (value : Option Expr)

/-- The depth of a branch or body whose head stands at `depth`: a block stays where the head is. -/
def Stmt.depthUnder (depth : Nat) : Stmt → Nat
  | .block .. => depth
  | _ => depth + 1

/-! ## classes -/

structure Formal where
  line : Int
  type : String
  name : String

/-- A method's body is the statement list of its block. -/
inductive Member where
  | field (line : Int) (type name : String) (init : Option Expr)
  | method (line : Int) (type name : String) (formalsLine : Int) (formals : List Formal)
      (bodyLine : Int) (body : List Stmt)

structure ClassDecl where
  line : Int
  name : String
  parent : Option String
  membersLine : Int
  members : List Member
  file : Option String := none

structure Program where
  line : Int
  classesLine : Int
  classes : List ClassDecl

end BantamSyntax
