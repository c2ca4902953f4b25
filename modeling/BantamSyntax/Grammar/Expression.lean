import BantamSyntax.Grammar.Parser
import BantamSyntax.Tree.Basic

/-!
# Grammar of expressions

One rule for each level of precedence, from assignment down to primary expressions. A rule is given
the number of steps that its repetitions may take and the rule for whole expressions, which it uses
only after it has taken a token.
-/
namespace BantamSyntax
namespace Grammar

open BantamSyntax.Parser

/-! ## primary expressions -/

def receivers : List String :=
  ["this", "super"]

def arguments (steps : Nat) (expression : ParserM Expr) : ParserM (List Expr) :=
  commaList steps expression

/-- The rest of a variable or a call, of which the last name has been taken. -/
def callRest (steps : Nat) (expression : ParserM Expr) (line : Int) (receiver : Option Variable)
    (name : String) : ParserM Expr := do
  if ← check .leftParen then
    let argumentsLine := (← take).line
    let es ← arguments steps expression
    let _ ← expect .rightParen .argumentsClosing
    return .call line receiver name argumentsLine es
  else match receiver with
    | none => return .var (.plain line name)
    | some r => return .var (.qualified line r name)

def variableOrCall (steps : Nat) (expression : ParserM Expr) : ParserM Expr := do
  let t ← take
  if t.spelling ∈ receivers then
    if ← takeIf .dot then
      let name ← name (.nameAfter t.spelling)
      callRest steps expression t.line (some (.plain t.line t.spelling)) name
    else callRest steps expression t.line none t.spelling
  else callRest steps expression t.line none t.spelling

def constantKind? : TokenKind → Option ConstantKind
  | .integer => some .integer
  | .boolean => some .boolean
  | .string => some .string
  | _ => none

def primary (steps : Nat) (expression : ParserM Expr) : ParserM Expr := do
  let t ← token
  if t.kind = .leftParen then
    advance
    let e ← expression
    let _ ← expect .rightParen .expressionClosing
    return e
  else match constantKind? t.kind with
    | some kind => do
      advance
      return .constant t.line kind t.spelling
    | none =>
      if t.kind = .identifier then variableOrCall steps expression else fail .expression

/-! ## unary operators -/

def suffixOp? : TokenKind → Option UnaryOp
  | .increment => some (.increment .after)
  | .decrement => some (.decrement .after)
  | _ => none

def suffixed (steps : Nat) (expression : ParserM Expr) : ParserM Expr := do
  let line := (← token).line
  let e ← primary steps expression
  match suffixOp? (← token).kind with
  | some op => do
    advance
    return .unary line op e
  | none => return e

def signOp? (t : Token) : Option UnaryOp :=
  match t.kind with
  | .additive => if t.spelling = "-" then some .negate else none
  | .negation => some .not
  | .increment => some (.increment .before)
  | .decrement => some (.decrement .before)
  | _ => none

def signed (steps : Nat) (expression : ParserM Expr) : Nat → ParserM Expr
  | 0 => throw .stuck
  | n + 1 => do
    let t ← token
    match signOp? t with
    | some op => do
      advance
      let e ← signed steps expression n
      return .unary t.line op e
    | none => suffixed steps expression

def newExpression : ParserM Expr := do
  let line := (← take).line
  let type ← name .newName
  let _ ← expect .leftParen .newOpening
  let _ ← expect .rightParen .newClosing
  return .new line type

def castExpression (expression : ParserM Expr) : ParserM Expr := do
  let line := (← take).line
  let _ ← expect .leftParen .castOpening
  let type ← name .castType
  let _ ← expect .comma .castComma
  let e ← expression
  let _ ← expect .rightParen .castClosing
  return .cast line type e

def unary (steps : Nat) (expression : ParserM Expr) : ParserM Expr := do
  if ← check .newWord then newExpression
  else if ← check .castWord then castExpression expression
  else signed steps expression steps

/-! ## binary operators -/

/-- Operators of one precedence; those that `chain` associate to the left, others do not repeat. -/
structure Level where
  chain : Bool
  operators : List (String × BinaryOp)

namespace Level

def disjunction : Level :=
  ⟨true, [("||", .logical .or)]⟩

def conjunction : Level :=
  ⟨true, [("&&", .logical .and)]⟩

def equality : Level :=
  ⟨false, [("==", .comparison .equal), ("!=", .comparison .notEqual)]⟩

def relation : Level :=
  ⟨false, [("<", .comparison .less), (">", .comparison .greater),
    ("<=", .comparison .lessOrEqual), (">=", .comparison .greaterOrEqual)]⟩

def sum : Level :=
  ⟨true, [("+", .arithmetic .plus), ("-", .arithmetic .minus)]⟩

def product : Level :=
  ⟨true, [("*", .arithmetic .times), ("/", .arithmetic .divide), ("%", .arithmetic .modulus)]⟩

/-- All levels, the operators that bind least first. -/
def all : List Level :=
  [disjunction, conjunction, equality, relation, sum, product]

def op? (l : Level) (t : Token) : Option BinaryOp :=
  if t.kind.isOperator then l.operators.lookup t.spelling else none

end Level

/-- The operators and operands after `left`, which are added to it one by one. -/
def operands (l : Level) (operand : ParserM Expr) (line : Int) : Nat → Expr → ParserM Expr
  | 0, _ => throw .stuck
  | n + 1, left => do
    match l.op? (← token) with
    | some op => do
      advance
      let right ← operand
      operands l operand line n (.binary line op left right)
    | none => return left

/-- One level, whose operands are of the next. -/
def binary (l : Level) (steps : Nat) (operand : ParserM Expr) : ParserM Expr := do
  let line := (← token).line
  let left ← operand
  if l.chain then operands l operand line steps left
  else match l.op? (← token) with
    | some op => do
      advance
      let right ← operand
      return .binary line op left right
    | none => return left

def cascade (steps : Nat) (expression : ParserM Expr) : List Level → ParserM Expr
  | [] => unary steps expression
  | l :: ls => binary l steps (cascade steps expression ls)

/-! ## assignment -/

/-- What may be assigned to: a variable that does not stand in parentheses. -/
def target? (first : Token) : Expr → Option Variable
  | .var v => if first.kind = .leftParen then none else some v
  | _ => none

def assignment (steps : Nat) (expression : ParserM Expr) : ParserM Expr := do
  let t ← token
  let e ← cascade steps expression Level.all
  if ← check .assign then
    match target? t e with
    | some v => do
      advance
      let value ← expression
      return .assign t.line (v.receiver?.map Variable.name) v.name value
    | none => fail .assignmentTarget
  else return e

/-- Expressions inside expressions have one step less. -/
def expression : Nat → ParserM Expr
  | 0 => throw .stuck
  | n + 1 => assignment (n + 1) (expression n)

end Grammar
end BantamSyntax
