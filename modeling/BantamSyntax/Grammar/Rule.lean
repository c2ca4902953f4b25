import BantamSyntax.Grammar.Parse
import BantamSyntax.Tree.Node

/-!
# Rules

Every rule of the grammar, and every question about the current token, as something that can be
asked of a parser by itself, in any order and also after it has failed.
-/
namespace BantamSyntax
namespace Grammar

inductive Rule where
  | program
  | classDeclaration
  | member
  | parameters
  | formal
  | statement
  | ifStatement
  | whileStatement
  | forStatement
  | breakStatement
  | returnStatement
  | declaration
  | block
  | expressionStatement
  | expression
  | disjunction
  | conjunction
  | equality
  | relation
  | sum
  | product
  | unary
  | newExpression
  | castExpression
  | signed
  | suffixed
  | primary
  | variableOrCall
  | arguments
  | advance
  | atEnd
  | check (kind : TokenKind)
  | takeIf (kind : TokenKind)
  | expect (kind : TokenKind) (message : String)
  | name (message : String)
  | fail (message : String)

/-- What a rule gives. -/
inductive Parsed where
  | node (n : Node)
  | nodes (ns : List Node)
  | token (t : Option Token)
  | truth (b : Bool)
  | text (s : String)

/-- Goes on to the next token and gives the one before it, if there was one. -/
def passed : ParserM (Option Token) := do
  let t := (← get).current
  Parser.advance
  return t

namespace Rule

/-- A rule for expressions, which is given the rule for whole expressions. -/
def ofExpr (rule : Nat → ParserM Expr → ParserM Expr) : ParserM Parsed :=
  return .node (.expr (← withSteps fun n => rule n (Grammar.expression n)))

/-- A rule for statements, which is given the rules for expressions and for statements. -/
def ofStmt (rule : Nat → ParserM Expr → ParserM Stmt → ParserM Stmt) : ParserM Parsed :=
  return .node (.stmt (← withSteps fun n => rule n (Grammar.expression n) (Grammar.statement n)))

/-- The binary operators from one level on. -/
def ofLevels (ls : List Level) : ParserM Parsed :=
  ofExpr fun n expression => cascade n expression ls

def run : Rule → ParserM Parsed
  | program => return .node (.program (← withSteps Grammar.program))
  | classDeclaration => return .node (.classDecl (← withSteps Grammar.classDeclaration))
  | member => return .node (.member (← withSteps Grammar.member))
  | parameters => return .nodes ((← withSteps Grammar.parameters).map .formal)
  | formal => return .node (.formal (← Grammar.formal))
  | statement => ofStmt fun _ _ statement => statement
  | ifStatement => ofStmt fun _ => Grammar.ifStatement
  | whileStatement => ofStmt fun _ => Grammar.whileStatement
  | forStatement => ofStmt fun _ => Grammar.forStatement
  | breakStatement => ofStmt fun _ _ _ => Grammar.breakStatement
  | returnStatement => ofStmt fun _ expression _ => Grammar.returnStatement expression
  | declaration => ofStmt fun _ expression _ => Grammar.declaration expression
  | block => ofStmt fun n _ statement => Grammar.block n statement
  | expressionStatement => ofStmt fun _ expression _ => Grammar.expressionStatement expression
  | expression => ofExpr fun _ expression => expression
  | disjunction => ofLevels Level.all
  | conjunction => ofLevels (Level.all.drop 1)
  | equality => ofLevels (Level.all.drop 2)
  | relation => ofLevels (Level.all.drop 3)
  | sum => ofLevels (Level.all.drop 4)
  | product => ofLevels (Level.all.drop 5)
  | unary => ofExpr Grammar.unary
  | newExpression => ofExpr fun _ _ => Grammar.newExpression
  | castExpression => ofExpr fun _ => Grammar.castExpression
  | signed => ofExpr fun n expression => Grammar.signed n expression n
  | suffixed => ofExpr Grammar.suffixed
  | primary => ofExpr Grammar.primary
  | variableOrCall => ofExpr Grammar.variableOrCall
  | arguments =>
    return .nodes ((← withSteps fun n => Grammar.arguments n (Grammar.expression n)).map .expr)
  | advance => return .token (← passed)
  | atEnd => return .truth (← Parser.atEnd)
  | check kind => return .truth (← Parser.check kind)
  | takeIf kind => return .truth (← Parser.takeIf kind)
  | expect kind message => return .token (some (← Parser.expect kind (.stated message)))
  | name message => return .text (← Parser.name (.stated message))
  | fail message => Parser.fail (.stated message)

end Rule
end Grammar
end BantamSyntax
