/-!
# Lexical faults

What can be wrong with a stretch of text that should be a token, and the tests on finished
literals that find it.
-/
namespace BantamSyntax

inductive LexicalFault where
  | unterminatedString
  | illegalEscape
  | longString
  | multilineString
  | unterminatedComment
  | largeInteger
  | bitwiseOperator
  | illegalCharacter
  deriving DecidableEq

namespace LexicalFault

/-- The longest string constant, quotes included. -/
def maxStringLength : Nat := 5000

/-- The largest integer constant. -/
def maxInteger : Nat := 2147483647

def message : LexicalFault → String
  | unterminatedString => "unterminated string"
  | illegalEscape => "illegal escape character"
  | longString => "string larger than " ++ toString maxStringLength ++ " chars"
  | multilineString => "spanning multiple lines"
  | unterminatedComment => "unterminated block comment"
  | largeInteger => "Integer too large"
  | bitwiseOperator => "bitwise logic not supported"
  | illegalCharacter => "illegal character"

/-! ## literals -/

def escapes : List Char := ['n', 't', 'f', '"', '\\']

/-- Backslashes are paired with what follows them from the left. -/
def hasIllegalEscape : List Char → Bool
  | '\\' :: c :: rest => c ∉ escapes || hasIllegalEscape rest
  | _ :: rest => hasIllegalEscape rest
  | [] => false

/-- The first fault of a finished string constant, given with its quotes. -/
def ofString? (spelling : List Char) : Option LexicalFault :=
  if hasIllegalEscape spelling then some illegalEscape
  else if maxStringLength < spelling.length then some longString
  else if '\n' ∈ spelling then some multilineString
  else none

/-- Compares digits, never numbers: by count, leading zeros left out, then from the left. -/
def ofInteger? (digits : List Char) : Option LexicalFault :=
  let limit := Nat.toDigits 10 maxInteger
  let digits := digits.dropWhile (· = '0')
  if limit.length < digits.length ∨ digits.length = limit.length ∧ limit < digits then
    some largeInteger
  else none

end LexicalFault
end BantamSyntax
