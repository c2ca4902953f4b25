/-!
# UTF-8

Reading bytes as characters. `decode` either gives all characters or the first stretch of bytes
that is no character, with the reason.
-/
namespace BantamSyntax.Utf8

/-! ## errors -/

inductive Reason where
  | startByte
  | continuationByte
  | truncated
  deriving DecidableEq

def Reason.message : Reason → String
  | .startByte => "invalid start byte"
  | .continuationByte => "invalid continuation byte"
  | .truncated => "unexpected end of data"

/-- The bytes at fault, their place in the data, and what is wrong with them. -/
structure Malformed where
  position : Nat
  bytes : List UInt8
  reason : Reason
  deriving DecidableEq

def hexByte (b : UInt8) : String :=
  String.ofList [Nat.digitChar (b.toNat / 16), Nat.digitChar (b.toNat % 16)]

def Malformed.message (e : Malformed) : String :=
  let place := match e.bytes with
    | [b] => "byte 0x" ++ hexByte b ++ " in position " ++ toString e.position
    | bs => "bytes in position " ++ toString e.position ++ "-"
        ++ toString (e.position + bs.length - 1)
  "'utf-8' codec can't decode " ++ place ++ ": " ++ e.reason.message

/-! ## decoding -/

/-- The bytes that still have to follow a first byte, and the bits it carries itself. -/
def leading (b : UInt8) : Option (Nat × Nat) :=
  let n := b.toNat
  if n < 0x80 then some (0, n)
  else if n < 0xC2 then none
  else if n < 0xE0 then some (1, n - 0xC0)
  else if n < 0xF0 then some (2, n - 0xE0)
  else if n < 0xF5 then some (3, n - 0xF0)
  else none

/-- The second byte keeps out overlong forms, surrogates and what lies beyond U+10FFFF. -/
def secondRange (first : UInt8) : Nat × Nat :=
  if first = 0xE0 then (0xA0, 0xBF)
  else if first = 0xED then (0x80, 0x9F)
  else if first = 0xF0 then (0x90, 0xBF)
  else if first = 0xF4 then (0x80, 0x8F)
  else (0x80, 0xBF)

/-- Takes `n` more bytes onto the bits `acc`; `seen` are the bytes of the character so far. -/
def continuation (seen : List UInt8) (range : Nat × Nat) (acc : Nat) :
    Nat → List UInt8 → Except (Reason × List UInt8) (Nat × List UInt8)
  | 0, rest => .ok (acc, rest)
  | _ + 1, [] => .error (.truncated, seen)
  | n + 1, b :: rest =>
    if range.1 ≤ b.toNat ∧ b.toNat ≤ range.2 then
      continuation (seen ++ [b]) (0x80, 0xBF) (acc * 64 + (b.toNat - 0x80)) n rest
    else .error (.continuationByte, seen)

theorem continuation_length {seen range acc} :
    ∀ {n bytes v rest}, continuation seen range acc n bytes = .ok (v, rest) →
      rest.length ≤ bytes.length := by
  intro n
  induction n generalizing seen range acc with
  | zero => intro bytes v rest h; simp only [continuation, Except.ok.injEq, Prod.mk.injEq] at h; simp [h.2]
  | succ n ih =>
    intro bytes v rest h
    cases bytes with
    | nil => simp [continuation] at h
    | cons b bs =>
      simp only [continuation] at h
      split at h
      · exact Nat.le_succ_of_le (ih h)
      · simp at h

def decodeFrom (position : Nat) (bytes : List UInt8) : Except Malformed (List Char) :=
  match bytes with
  | [] => .ok []
  | b :: rest =>
    match leading b with
    | none => .error ⟨position, [b], .startByte⟩
    | some (more, bits) =>
      match _h : continuation [b] (secondRange b) bits more rest with
      | .error (reason, seen) => .error ⟨position, seen, reason⟩
      | .ok (code, tail) => do
        let cs ← decodeFrom (position + (bytes.length - tail.length)) tail
        return Char.ofNat code :: cs
termination_by bytes.length
decreasing_by exact Nat.lt_succ_of_le (continuation_length _h)

def decode (bytes : List UInt8) : Except Malformed (List Char) :=
  decodeFrom 0 bytes

end BantamSyntax.Utf8
