/-!
# Token kinds

The kinds of tokens, the reserved words, and the characters that are tokens by themselves.
-/
namespace BantamSyntax

inductive TokenKind where
  | leftBrace
  | rightBrace
  | leftParen
  | rightParen
  | dot
  | semicolon
  | colon
  | comma
  | assign
  | additive
  | multiplicative
  | negation
  | comparison
  | increment
  | decrement
  | logical
  | identifier
  | integer
  | string
  | boolean
  | classWord
  | extendsWord
  | ifWord
  | elseWord
  | whileWord
  | forWord
  | breakWord
  | newWord
  | castWord
  | returnWord
  | varWord
  | comment
  | error
  | endOfFile
  deriving DecidableEq

namespace TokenKind

/-- Every kind, with its name; a kind is numbered by its place, from 1. -/
def names : List (TokenKind × String) :=
  [(leftBrace, "LCURLY"), (rightBrace, "RCURLY"), (leftParen, "LPAREN"), (rightParen, "RPAREN"),
    (dot, "DOT"), (semicolon, "SEMICOLON"), (colon, "COLON"), (comma, "COMMA"),
    (assign, "ASSIGN"), (additive, "PLUSMINUS"), (multiplicative, "MULDIV"),
    (negation, "UNARYNOT"), (comparison, "COMPARE"), (increment, "UNARYINCR"),
    (decrement, "UNARYDECR"), (logical, "BINARYLOGIC"), (identifier, "IDENTIFIER"),
    (integer, "INTCONST"), (string, "STRCONST"), (boolean, "BOOLEAN"), (classWord, "CLASS"),
    (extendsWord, "EXTENDS"), (ifWord, "IF"), (elseWord, "ELSE"), (whileWord, "WHILE"),
    (forWord, "FOR"), (breakWord, "BREAK"), (newWord, "NEW"), (castWord, "CAST"),
    (returnWord, "RETURN"), (varWord, "VAR"), (comment, "COMMENT"), (error, "ERROR"),
    (endOfFile, "EOF")]

def name (k : TokenKind) : String :=
  (names.lookup k).getD ""

def number (k : TokenKind) : Nat :=
  names.findIdx (·.1 = k) + 1

def ofName? (s : String) : Option TokenKind :=
  (names.find? (·.2 = s)).map (·.1)

/-! ## tables -/

def reserved : List (String × TokenKind) :=
  [("class", classWord), ("extends", extendsWord), ("if", ifWord), ("else", elseWord),
    ("while", whileWord), ("for", forWord), ("break", breakWord), ("new", newWord),
    ("cast", castWord), ("return", returnWord), ("var", varWord), ("true", boolean),
    ("false", boolean)]

def punctuators : List (Char × TokenKind) :=
  [('\x7b', leftBrace), ('\x7d', rightBrace), ('(', leftParen), (')', rightParen), ('.', dot),
    (';', semicolon), (':', colon), (',', comma)]

def operators : List TokenKind :=
  [assign, additive, multiplicative, negation, comparison, increment, decrement, logical]

def literals : List TokenKind :=
  [integer, string, boolean]

/-- Operators of one character. -/
def simpleOperators : List (Char × TokenKind) :=
  [('=', assign), ('+', additive), ('-', additive), ('*', multiplicative), ('/', multiplicative),
    ('%', multiplicative), ('!', negation), ('<', comparison), ('>', comparison)]

/-- Operators of two characters. -/
def doubleOperators : List ((Char × Char) × TokenKind) :=
  [(('=', '='), comparison), (('!', '='), comparison), (('<', '='), comparison),
    (('>', '='), comparison), (('+', '+'), increment), (('-', '-'), decrement),
    (('&', '&'), logical), (('|', '|'), logical)]

/-! ## classes of kinds -/

/-- The constants `true` and `false` are reserved words but no keywords. -/
def isKeyword (k : TokenKind) : Bool :=
  k ∈ reserved.map (·.2) && k ≠ boolean

def isLiteral (k : TokenKind) : Bool :=
  k ∈ literals

def isOperator (k : TokenKind) : Bool :=
  k ∈ operators

end TokenKind
end BantamSyntax
