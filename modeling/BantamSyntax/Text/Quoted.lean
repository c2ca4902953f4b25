import BantamSyntax.Text.Invisible

/-!
# Quoted text

A text on one line between quotes: `encode` chooses the quote and escapes what a reader could not
see or would take for the end.
-/
namespace BantamSyntax.Quoted

/-! ## characters -/

/-- The code point in lower-case hexadecimal, at least `width` digits long. -/
def hex (width n : Nat) : List Char :=
  let digits := Nat.toDigits 16 n
  List.replicate (width - digits.length) '0' ++ digits

def escape (quote c : Char) : List Char :=
  if c = quote ∨ c = '\\' then ['\\', c]
  else if c = '\n' then ['\\', 'n']
  else if c = '\r' then ['\\', 'r']
  else if c = '\t' then ['\\', 't']
  else if isInvisible c then
    if c.toNat < 0x100 then '\\' :: 'x' :: hex 2 c.toNat
    else if c.toNat < 0x10000 then '\\' :: 'u' :: hex 4 c.toNat
    else '\\' :: 'U' :: hex 8 c.toNat
  else [c]

/-! ## texts -/

/-- A single quote, unless the text holds single quotes and no double one. -/
def quoteFor (s : List Char) : Char :=
  if '\'' ∈ s ∧ '"' ∉ s then '"' else '\''

def encode (s : List Char) : List Char :=
  let quote := quoteFor s
  quote :: s.flatMap (escape quote) ++ [quote]

end BantamSyntax.Quoted

namespace BantamSyntax

def quoted (s : String) : String :=
  String.ofList (Quoted.encode s.toList)

/-- Quoted text cut off after so many characters. -/
def quotedStart (width : Nat) (s : String) : String :=
  String.ofList ((Quoted.encode s.toList).take width)

end BantamSyntax
