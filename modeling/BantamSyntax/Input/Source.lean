import BantamSyntax.Action
import BantamSyntax.Input.Reader

/-!
# Sources

A source hands out a program text one character at a time. However the text marks its line ends, by
LF, CR or CR LF, each comes as one newline, and the source counts them.
-/
namespace BantamSyntax

/--
A source is open until it is closed, and only one that `owned` its reader can be. The end of the
input, once met, is final.
-/
structure Source where
  name : String
  reader : Reader
  owned : Bool := false
  closed : Bool := false
  buffer : List Char := []
  ended : Bool := false
  line : Nat := 1

/-- An action on a source keeps what it did to the source also when it fails. -/
abbrev SourceM := EStateM InputFailure Source

namespace Source

def close (s : Source) : Source :=
  { s with closed := s.closed || s.owned }

/-! ## reading -/

/-- Reads the next piece if no character is left; the buffer stays empty only at the end. -/
def fill : SourceM Unit := fun s =>
  if s.buffer ≠ [] ∨ s.ended then .ok () s
  else if s.closed then .error .closed s
  else match s.reader.readings with
    | [] => match s.reader.stuck with
      | none => .ok () { s with ended := true }
      | some cause => .error cause s
    | .failure cause :: rest => .error cause { s with reader.readings := rest }
    | .piece [] :: rest => .ok () { s with ended := true, reader.readings := rest }
    | .piece text :: rest => .ok () { s with buffer := text, reader.readings := rest }

def read : SourceM (Option Char) := do
  fill
  modifyGet fun s => (s.buffer.head?, { s with buffer := s.buffer.tail })

/-- Passes over a line feed that comes next. -/
def skipLineFeed : SourceM Unit := do
  fill
  modify fun s => if s.buffer.head? = some '\n' then { s with buffer := s.buffer.tail } else s

def newline : SourceM (Option Char) :=
  modifyGet fun s => (some '\n', { s with line := s.line + 1 })

/-- The next character, or nothing at the end. -/
def next : SourceM (Option Char) := do
  match ← read with
  | some '\r' => do skipLineFeed; newline
  | some '\n' => newline
  | c => pure c

/-! ## size -/

/-- Bounds the characters and failures still to come. -/
def weight (s : Source) : Nat :=
  s.buffer.length + s.reader.weight

/-- Every read fails and changes nothing. -/
def isStuck (s : Source) : Bool :=
  s.buffer.isEmpty && !s.ended && (s.closed || (s.reader.readings.isEmpty && s.reader.stuck.isSome))

theorem weight_of_fill {s s' : Source} (h : fill s = .ok () s') : s'.weight ≤ s.weight := by
  unfold fill at h
  repeat' split at h
  all_goals cases h
  all_goals simp_all [weight, Reader.weight, Reading.weight]

theorem weight_of_fill_error {s s' : Source} {e} (h : fill s = .error e s') :
    s'.weight < s.weight ∨ s' = s ∧ s.isStuck := by
  unfold fill at h
  repeat' split at h
  all_goals cases h
  all_goals simp_all [weight, Reader.weight, Reading.weight, isStuck]

theorem weight_of_read {s s' : Source} {c} (h : read s = .ok c s') :
    s'.weight + (if c.isSome then 1 else 0) ≤ s.weight := by
  obtain ⟨_, t, hf, h⟩ := bind_eq_ok.1 h
  have ht := weight_of_fill hf
  cases modifyGet_eq_ok.1 h
  cases hb : t.buffer <;> simp_all [weight]
  omega

theorem weight_of_read_error {s s' : Source} {e} (h : read s = .error e s') :
    s'.weight < s.weight ∨ s' = s ∧ s.isStuck := by
  rcases bind_eq_error.1 h with h | ⟨_, _, _, h⟩
  · exact weight_of_fill_error h
  · exact absurd h modifyGet_ne_error

theorem weight_of_skipLineFeed {s s' : Source} (h : skipLineFeed s = .ok () s') :
    s'.weight ≤ s.weight := by
  obtain ⟨_, t, hf, h⟩ := bind_eq_ok.1 h
  have ht := weight_of_fill hf
  cases modifyGet_eq_ok.1 h
  dsimp only
  split
  · cases hb : t.buffer <;> simp_all [weight]; omega
  · exact ht

theorem weight_of_skipLineFeed_error {s s' : Source} {e} (h : skipLineFeed s = .error e s') :
    s'.weight ≤ s.weight := by
  rcases bind_eq_error.1 h with h | ⟨_, _, _, h⟩
  · rcases weight_of_fill_error h with h | ⟨rfl, _⟩
    · exact Nat.le_of_lt h
    · exact Nat.le_refl _
  · exact absurd h modifyGet_ne_error

theorem weight_of_newline {s s' : Source} {c} (h : newline s = .ok c s') :
    c = some '\n' ∧ s'.weight = s.weight := by
  cases modifyGet_eq_ok.1 h
  simp [weight]

theorem weight_of_next {s s' : Source} {c} (h : next s = .ok c s') :
    s'.weight + (if c.isSome then 1 else 0) ≤ s.weight := by
  obtain ⟨d, t, hr, h⟩ := bind_eq_ok.1 h
  have ht := weight_of_read hr
  split at h
  · obtain ⟨_, u, hk, h⟩ := bind_eq_ok.1 h
    have hu := weight_of_skipLineFeed hk
    obtain ⟨rfl, hw⟩ := weight_of_newline h
    simp only [Option.isSome_some, if_true] at ht ⊢
    omega
  · obtain ⟨rfl, hw⟩ := weight_of_newline h
    rw [hw]
    exact ht
  · obtain ⟨rfl, rfl⟩ := pure_eq_ok.1 h
    exact ht

theorem weight_of_next_error {s s' : Source} {e} (h : next s = .error e s') :
    s'.weight < s.weight ∨ s' = s ∧ s.isStuck := by
  rcases bind_eq_error.1 h with h | ⟨d, t, hr, h⟩
  · exact weight_of_read_error h
  · have ht := weight_of_read hr
    split at h
    · rcases bind_eq_error.1 h with h | ⟨_, u, hk, h⟩
      · have hu := weight_of_skipLineFeed_error h
        simp only [Option.isSome_some, if_true] at ht
        omega
      · exact absurd h modifyGet_ne_error
    · exact absurd h modifyGet_ne_error
    · exact absurd h pure_ne_error

end Source
end BantamSyntax
