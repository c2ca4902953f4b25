import BantamSyntax.Text.Quoted

/-!
# Numerals

Reading decimal digits, with or without a sign, as a number.
-/
namespace BantamSyntax.Numeral

/-- The value of a run of digits. -/
def natOfDigits (ds : List Char) : Nat :=
  ds.foldl (fun n d => n * 10 + (d.toNat - '0'.toNat)) 0

def isDigits (ds : List Char) : Bool :=
  !ds.isEmpty && ds.all Char.isDigit

def ofDigits? (ds : List Char) : Option Nat :=
  if isDigits ds then some (natOfDigits ds) else none

def ofChars? : List Char → Option Int
  | '-' :: ds => (ofDigits? ds).map fun n => -(n : Int)
  | '+' :: ds => (ofDigits? ds).map fun n => (n : Int)
  | ds => (ofDigits? ds).map fun n => (n : Int)

/-! ## spellings without a value -/

inductive Fault where
  | malformed (spelling : String)
  | tooLong (digits : Nat)
  deriving DecidableEq

/-- As many digits are read, leading zeros counted. -/
def maxDigits : Nat := 4300

/-- As much of a malformed spelling is shown, quotes and escapes counted. -/
def shownWidth : Nat := 200

def Fault.message : Fault → String
  | malformed spelling =>
    "invalid literal for int() with base 10: " ++ quotedStart shownWidth spelling
  | tooLong digits =>
    "Exceeds the limit (" ++ toString maxDigits
      ++ " digits) for integer string conversion: value has " ++ toString digits
      ++ " digits; use sys.set_int_max_str_digits() to increase the limit"

def unsigned : List Char → List Char
  | '-' :: ds => ds
  | '+' :: ds => ds
  | ds => ds

/-- Too many digits are refused before what comes after them is looked at. -/
def read (spelling : String) : Except Fault Int :=
  let digits := ((unsigned spelling.toList).takeWhile Char.isDigit).length
  if maxDigits < digits then .error (.tooLong digits)
  else match ofChars? spelling.toList with
    | some n => .ok n
    | none => .error (.malformed spelling)

end BantamSyntax.Numeral
