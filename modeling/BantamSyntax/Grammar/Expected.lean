/-!
# Syntax errors

What the grammar asked for where the text had something else.
-/
namespace BantamSyntax

inductive Expected where
  | classWord
  | className
  | parentName
  | classOpening
  | classClosing
  | memberType
  | memberName
  | memberRest
  | fieldEnd
  | parameterType
  | parameterName
  | parametersClosing
  | methodOpening
  | ifOpening
  | ifClosing
  | whileOpening
  | whileClosing
  | forOpening
  | forInitEnd
  | forConditionEnd
  | forClosing
  | breakEnd
  | returnEnd
  | variableName
  | variableInit
  | variableEnd
  | blockOpening
  | blockClosing
  | statementEnd
  | assignmentTarget
  | newName
  | newOpening
  | newClosing
  | castOpening
  | castType
  | castComma
  | castClosing
  | expression
  | expressionClosing
  | nameAfter (receiver : String)
  | argumentsClosing
  | stated (message : String)
  deriving DecidableEq

def Expected.message : Expected → String
  | classWord => "Expected 'class'"
  | className => "Expected class name"
  | parentName => "Expected parent class name after 'extends'"
  | classOpening => "Expected '\x7b' before class body"
  | classClosing => "Expected '\x7d' after class body"
  | memberType => "Expected type name"
  | memberName => "Expected member name"
  | memberRest => "Expected '(', '=' or ';' after member name"
  | fieldEnd => "Expected ';' after field declaration"
  | parameterType => "Expected parameter type"
  | parameterName => "Expected parameter name"
  | parametersClosing => "Expected ')' after parameters"
  | methodOpening => "Expected '\x7b' before method body"
  | ifOpening => "Expected '(' after 'if'"
  | ifClosing => "Expected ')' after if condition"
  | whileOpening => "Expected '(' after 'while'"
  | whileClosing => "Expected ')' after while condition"
  | forOpening => "Expected '(' after 'for'"
  | forInitEnd => "Expected ';' after for initializer"
  | forConditionEnd => "Expected ';' after for condition"
  | forClosing => "Expected ')' after for clauses"
  | breakEnd => "Expected ';' after 'break'"
  | returnEnd => "Expected ';' after return value"
  | variableName => "Expected variable name after 'var'"
  | variableInit => "Expected '=' after variable name: local variables must be initialized"
  | variableEnd => "Expected ';' after variable declaration"
  | blockOpening => "Expected '\x7b'"
  | blockClosing => "Expected '\x7d' after block"
  | statementEnd => "Expected ';' after expression"
  | assignmentTarget => "Invalid assignment target: a variable is required"
  | newName => "Expected class name after 'new'"
  | newOpening => "Expected '(' after class name in 'new'"
  | newClosing => "Expected ')': 'new' takes no arguments"
  | castOpening => "Expected '(' after 'cast'"
  | castType => "Expected type name in cast"
  | castComma => "Expected ',' after cast type"
  | castClosing => "Expected ')' after cast expression"
  | expression => "Expected expression"
  | expressionClosing => "Expected ')' after expression"
  | nameAfter receiver => "Expected name after '" ++ receiver ++ ".'"
  | argumentsClosing => "Expected ')' after arguments"
  | stated message => message

end BantamSyntax
