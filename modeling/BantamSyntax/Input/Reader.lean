import BantamSyntax.Input.Failure

/-!
# Readers

A reader gives text piece by piece, and any read may fail. It is known by what its reads will give,
in order.
-/
namespace BantamSyntax

/-- What one read gives; a piece without characters is the end of the input. -/
inductive Reading where
  | piece (text : List Char)
  | failure (cause : InputFailure)

/-- After the listed readings every read fails as `stuck` says, or finds the end of the input. -/
structure Reader where
  readings : List Reading
  stuck : Option InputFailure := none

namespace Reader

/-! ## readers of whole texts -/

def pieceSize : Nat := 4096

/-- The text in pieces of `pieceSize` characters, the last one shorter. -/
def pieces (text : List Char) : List (List Char) :=
  if _h : text = [] then [] else text.take pieceSize :: pieces (text.drop pieceSize)
termination_by text.length
decreasing_by
  have := List.length_pos_iff.2 _h
  simp only [List.length_drop, pieceSize]
  omega

def ofText (text : List Char) : Reader :=
  ⟨(pieces text).map .piece, none⟩

/--
Bytes that are no text are noticed by the first read. If they only lack their end, each later read
finds the same bytes left over, which are then all that it counts positions in.
-/
def ofBytes (bytes : List UInt8) : Reader :=
  match Utf8.decode bytes with
  | .ok text => ofText text
  | .error e =>
    match e.reason with
    | .truncated => ⟨[], some (.malformed { e with position := 0 })⟩
    | _ => ⟨[.failure (.malformed e)], none⟩

end Reader

/-! ## size -/

/-- Bounds the characters and failures still to come. -/
def Reading.weight : Reading → Nat
  | .piece text => text.length + 1
  | .failure _ => 1

def Reader.weight (r : Reader) : Nat :=
  r.readings.foldr (fun x n => x.weight + n) 0

end BantamSyntax
