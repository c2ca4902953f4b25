import BantamSyntax.Grammar.Expression

/-!
# Grammar of statements

The rules for statements; a statement's own parts are read by the rule it is given.
-/
namespace BantamSyntax
namespace Grammar

open BantamSyntax.Parser

/-! ## simple statements -/

def breakStatement : ParserM Stmt := do
  let line := (← take).line
  let _ ← expect .semicolon .breakEnd
  return .break line

/-- An expression, unless the token that would follow it comes at once. -/
def optional (closing : TokenKind) (expression : ParserM Expr) : ParserM (Option Expr) := do
  if ← check closing then return none else return some (← expression)

def returnStatement (expression : ParserM Expr) : ParserM Stmt := do
  let line := (← take).line
  let value ← optional .semicolon expression
  let _ ← expect .semicolon .returnEnd
  return .return line value

def declaration (expression : ParserM Expr) : ParserM Stmt := do
  let line := (← take).line
  let name ← name .variableName
  let _ ← expect .assign .variableInit
  let init ← expression
  let _ ← expect .semicolon .variableEnd
  return .declare line name init

def expressionStatement (expression : ParserM Expr) : ParserM Stmt := do
  let line := (← token).line
  let e ← expression
  let _ ← expect .semicolon .statementEnd
  return .expr line e

/-! ## compound statements -/

/-- Statements between braces, and the line of the opening one. -/
def body (steps : Nat) (statement : ParserM Stmt) : ParserM (Int × List Stmt) := do
  let line := (← expect .leftBrace .blockOpening).line
  let ss ← untilBrace statement steps
  let _ ← expect .rightBrace .blockClosing
  return (line, ss)

def block (steps : Nat) (statement : ParserM Stmt) : ParserM Stmt := do
  let (line, ss) ← body steps statement
  return .block line line ss

/-- An `else` belongs to the nearest `if`. -/
def ifStatement (expression : ParserM Expr) (statement : ParserM Stmt) : ParserM Stmt := do
  let line := (← take).line
  let _ ← expect .leftParen .ifOpening
  let condition ← expression
  let _ ← expect .rightParen .ifClosing
  let consequent ← statement
  if ← takeIf .elseWord then return .ifElse line condition consequent (← statement)
  else return .ifThen line condition consequent

def whileStatement (expression : ParserM Expr) (statement : ParserM Stmt) : ParserM Stmt := do
  let line := (← take).line
  let _ ← expect .leftParen .whileOpening
  let condition ← expression
  let _ ← expect .rightParen .whileClosing
  return .while line condition (← statement)

def forStatement (expression : ParserM Expr) (statement : ParserM Stmt) : ParserM Stmt := do
  let line := (← take).line
  let _ ← expect .leftParen .forOpening
  let init ← optional .semicolon expression
  let _ ← expect .semicolon .forInitEnd
  let condition ← optional .semicolon expression
  let _ ← expect .semicolon .forConditionEnd
  let update ← optional .rightParen expression
  let _ ← expect .rightParen .forClosing
  return .for line init condition update (← statement)

/-- Statements inside statements have one step less. -/
def statement : Nat → ParserM Stmt
  | 0 => throw .stuck
  | n + 1 => do
    match (← token).kind with
    | .ifWord => ifStatement (expression (n + 1)) (statement n)
    | .whileWord => whileStatement (expression (n + 1)) (statement n)
    | .forWord => forStatement (expression (n + 1)) (statement n)
    | .breakWord => breakStatement
    | .returnWord => returnStatement (expression (n + 1))
    | .varWord => declaration (expression (n + 1))
    | .leftBrace => block (n + 1) (statement n)
    | _ => expressionStatement (expression (n + 1))

end Grammar
end BantamSyntax
