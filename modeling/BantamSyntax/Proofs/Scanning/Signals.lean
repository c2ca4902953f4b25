import BantamSyntax.Input.Source

/-!
# Signals

What reads give to a source, character by character and failure by failure, and what calls for the
next character make of that.
-/
namespace BantamSyntax

/-- A character that was read, or a read that failed. -/
abbrev Signal := Except InputFailure Char

/-- The signals that readings give before the end of the input. -/
def Reading.signals : List Reading → List Signal
  | .piece (c :: cs) :: rest => (c :: cs).map .ok ++ signals rest
  | .failure cause :: rest => .error cause :: signals rest
  | _ => []

/-- As many newlines as the first character is. -/
def newlineAt (c : Option Char) : Nat :=
  if c = some '\n' then 1 else 0

@[simp] theorem newlineAt_none : newlineAt none = 0 := rfl

namespace Signal

/-- What the calls come to, in order. A CR waits for what comes next: it takes a line feed with it,
and is lost where the read fails. -/
def outcomes : List Signal → List Signal
  | [] => []
  | .ok '\r' :: .ok '\n' :: xs => .ok '\n' :: outcomes xs
  | .ok '\r' :: .error cause :: xs => .error cause :: outcomes xs
  | .ok '\r' :: xs => .ok '\n' :: outcomes xs
  | x :: xs => x :: outcomes xs

variable {x : Signal} {xs : List Signal} {c : Char} {cause : InputFailure}

@[simp] theorem outcomes_failure :
    outcomes (.error cause :: xs) = .error cause :: outcomes xs := by
  simp [outcomes]

theorem outcomes_char (h : c ≠ '\r') : outcomes (.ok c :: xs) = .ok c :: outcomes xs := by
  rw [outcomes.eq_5] <;> simp_all

theorem outcomes_return_feed :
    outcomes (.ok '\r' :: .ok '\n' :: xs) = .ok '\n' :: outcomes xs := by
  simp [outcomes]

theorem outcomes_return_failure :
    outcomes (.ok '\r' :: .error cause :: xs) = .error cause :: outcomes xs := by
  simp [outcomes]

theorem outcomes_return (h : ∀ x ∈ xs.head?, ∃ c, x = .ok c ∧ c ≠ '\n') :
    outcomes (.ok '\r' :: xs) = .ok '\n' :: outcomes xs := by
  rw [outcomes.eq_4]
  · rintro ys rfl
    obtain ⟨c, hc, other⟩ := h _ rfl
    cases hc
    exact other rfl
  · rintro cause ys rfl
    obtain ⟨c, hc, -⟩ := h _ rfl
    cases hc

end Signal

namespace Source

open Signal

/-- The signals that are still to come. -/
def signals (s : Source) : List Signal :=
  s.buffer.map .ok ++ if s.ended then [] else Reading.signals s.reader.readings

/-- The source is open, has the signals before it and has counted up to `line`. -/
structure Holds (s : Source) (xs : List Signal) (line : Nat) : Prop where
  opened : s.closed = false
  free : s.reader.stuck = none
  signals_eq : s.signals = xs
  count : s.line = line

variable {s t : Source} {x : Signal} {xs ys : List Signal} {line : Nat}

/-- The first signal is in the buffer, which is empty only at the end. -/
structure Filled (s : Source) (xs : List Signal) (line : Nat) : Prop extends s.Holds xs line where
  first : s.buffer.head?.map .ok = xs.head?
  ended : s.buffer = [] → s.ended = true

theorem fill_holds (h : s.Holds xs line) :
    (∃ cause ys t, xs = .error cause :: ys ∧ fill s = .error cause t ∧ t.Holds ys line) ∨
      ∃ t, fill s = .ok () t ∧ t.Filled xs line := by
  obtain ⟨opened, free, rfl, rfl⟩ := h
  unfold fill
  by_cases hb : s.buffer ≠ [] ∨ s.ended
  · refine .inr ⟨s, by rw [if_pos hb], ⟨opened, free, rfl, rfl⟩, ?_, fun empty => ?_⟩
    · cases hs : s.buffer with
      | nil => simp_all [signals]
      | cons c cs => simp [signals, hs]
    · simpa [empty] using hb
  obtain ⟨hb, he⟩ : s.buffer = [] ∧ s.ended = false := by simpa using hb
  cases hr : s.reader.readings with
  | nil =>
    refine .inr ⟨{ s with ended := true }, by simp [hb, he, opened, free], ⟨opened, free, ?_, rfl⟩,
      ?_, fun _ => rfl⟩ <;> simp [signals, hb, he, hr, Reading.signals]
  | cons r rest =>
    cases r with
    | failure cause =>
      refine .inl ⟨cause, Reading.signals rest, { s with reader.readings := rest }, ?_,
        by simp [hb, he, opened], opened, free, ?_, rfl⟩ <;>
          simp [signals, hb, he, hr, Reading.signals]
    | piece text =>
      cases text with
      | nil =>
        refine .inr ⟨{ s with ended := true, reader.readings := rest }, by simp [hb, he, opened],
          ⟨opened, free, ?_, rfl⟩, ?_, fun _ => rfl⟩ <;>
            simp [signals, hb, he, hr, Reading.signals]
      | cons c cs =>
        refine .inr ⟨{ s with buffer := c :: cs, reader.readings := rest },
          by simp [hb, he, opened], ⟨opened, free, ?_, rfl⟩, ?_, nofun⟩ <;>
            simp [signals, hb, he, hr, Reading.signals]

/-- An empty buffer has nothing to take. -/
theorem dropFirst_of_nil (h : s.buffer = []) : { s with buffer := s.buffer.tail } = s := by
  obtain ⟨_, _, _, _, _, _, _⟩ := s
  cases h
  rfl

/-- What is left once the first character is taken from the buffer. -/
theorem Filled.dropFirst (h : s.Filled (x :: xs) line) :
    Holds { s with buffer := s.buffer.tail } xs line := by
  obtain ⟨⟨opened, free, held, count⟩, first, -⟩ := h
  refine ⟨opened, free, ?_, count⟩
  cases hb : s.buffer with
  | nil => simp [hb] at first
  | cons c cs =>
    simp only [signals, hb, List.map_cons, List.cons_append, List.cons.injEq] at held
    exact held.2

theorem read_holds (h : s.Holds xs line) :
    (∃ cause ys t, xs = .error cause :: ys ∧ read s = .error cause t ∧ t.Holds ys line) ∨
      (∃ c ys t, xs = .ok c :: ys ∧ read s = .ok (some c) t ∧ t.Holds ys line) ∨
      ∃ t, xs = [] ∧ read s = .ok none t ∧ t.Holds [] line ∧ t.buffer = [] ∧ t.ended = true := by
  rcases fill_holds h with ⟨cause, ys, t, hxs, hf, ht⟩ | ⟨t, hf, ht⟩
  · exact .inl ⟨cause, ys, t, hxs, bind_of_error hf, ht⟩
  have taken : read s = .ok t.buffer.head? { t with buffer := t.buffer.tail } :=
    (bind_of_ok hf).trans rfl
  have first := ht.first
  right
  cases hb : t.buffer with
  | nil =>
    obtain rfl : xs = [] := by simpa [hb, eq_comm] using first
    refine .inr ⟨t, rfl, ?_, ht.toHolds, hb, ht.ended hb⟩
    rw [taken, dropFirst_of_nil hb, hb, List.head?_nil]
  | cons c cs =>
    obtain ⟨ys, rfl⟩ := List.head?_eq_some_iff.1 (first.symm.trans (by rw [hb]; rfl))
    exact .inl ⟨c, ys, _, rfl, by rw [taken, hb]; rfl, ht.dropFirst⟩

theorem skipLineFeed_holds (h : s.Holds xs line) :
    (∃ cause ys t, xs = .error cause :: ys ∧ skipLineFeed s = .error cause t ∧ t.Holds ys line) ∨
      (∃ ys t, xs = .ok '\n' :: ys ∧ skipLineFeed s = .ok () t ∧ t.Holds ys line) ∨
      ∃ t, (∀ x ∈ xs.head?, ∃ c, x = .ok c ∧ c ≠ '\n') ∧ skipLineFeed s = .ok () t ∧
        t.Holds xs line := by
  rcases fill_holds h with ⟨cause, ys, t, hxs, hf, ht⟩ | ⟨t, hf, ht⟩
  · exact .inl ⟨cause, ys, t, hxs, bind_of_error hf, ht⟩
  have skipped : skipLineFeed s = .ok () (if t.buffer.head? = some '\n' then
      { t with buffer := t.buffer.tail } else t) := (bind_of_ok hf).trans rfl
  have first := ht.first
  right
  by_cases feed : t.buffer.head? = some '\n'
  · rw [feed] at first
    obtain ⟨ys, rfl⟩ := List.head?_eq_some_iff.1 first.symm
    exact .inl ⟨ys, _, rfl, by rw [skipped, if_pos feed], ht.dropFirst⟩
  · refine .inr ⟨t, fun x hx => ?_, by rw [skipped, if_neg feed], ht.toHolds⟩
    rw [← first] at hx
    obtain ⟨c, hc, rfl⟩ := Option.map_eq_some_iff.1 hx
    exact ⟨c, rfl, fun newline => feed (newline ▸ hc)⟩

theorem Holds.newline (h : s.Holds xs line) :
    Holds { s with line := s.line + 1 } xs (line + newlineAt (some '\n')) :=
  ⟨h.opened, h.free, h.signals_eq, congrArg (· + 1) h.count⟩

/-- One call takes signals off the front, and comes to the first of their outcomes. -/
theorem next_holds (h : s.Holds xs line) :
    (∃ cause ys t, outcomes xs = .error cause :: outcomes ys ∧ ys.length < xs.length ∧
        next s = .error cause t ∧ t.Holds ys line) ∨
      (∃ c ys t, outcomes xs = .ok c :: outcomes ys ∧ ys.length < xs.length ∧
        next s = .ok (some c) t ∧ t.Holds ys (line + newlineAt (some c))) ∨
      ∃ t, xs = [] ∧ next s = .ok none t ∧ t.Holds [] line ∧ t.buffer = [] ∧ t.ended = true := by
  rcases read_holds h with ⟨cause, ys, t, rfl, hr, ht⟩ | ⟨c, ys, t, rfl, hr, ht⟩ |
    ⟨t, rfl, hr, ht⟩
  · exact .inl ⟨cause, ys, t, outcomes_failure, by simp, bind_of_error hr, ht⟩
  · by_cases hc : c = '\r'
    · subst hc
      rcases skipLineFeed_holds ht with ⟨cause, zs, u, rfl, hk, hu⟩ | ⟨zs, u, rfl, hk, hu⟩ |
        ⟨u, other, hk, hu⟩
      · exact .inl ⟨cause, zs, u, outcomes_return_failure, by simp only [List.length_cons]; omega,
          (bind_of_ok hr).trans (bind_of_error hk), hu⟩
      · exact .inr (.inl ⟨'\n', zs, _, outcomes_return_feed, by simp only [List.length_cons]; omega,
          (bind_of_ok hr).trans (bind_of_ok hk), hu.newline⟩)
      · exact .inr (.inl ⟨'\n', ys, _, outcomes_return other, by simp,
          (bind_of_ok hr).trans (bind_of_ok hk), hu.newline⟩)
    · refine .inr (.inl ⟨c, ys, ?_⟩)
      rw [outcomes_char hc]
      by_cases hn : c = '\n'
      · subst hn
        exact ⟨_, rfl, by simp, bind_of_ok hr, ht.newline⟩
      · refine ⟨t, rfl, by simp, (bind_of_ok hr).trans ?_, ?_⟩
        · simp [hc, hn, pure, EStateM.pure]
        · simpa [newlineAt, hn] using ht
  · exact .inr (.inr ⟨t, rfl, bind_of_ok hr, ht⟩)

/-- A source that has met the end of the input stays as it is. -/
theorem next_ended (empty : s.buffer = []) (ended : s.ended = true) : next s = .ok none s := by
  have filled : fill s = .ok () s := if_pos (.inr ended)
  have hr : read s = .ok s.buffer.head? { s with buffer := s.buffer.tail } :=
    (bind_of_ok filled).trans rfl
  rw [dropFirst_of_nil empty, empty, List.head?_nil] at hr
  exact bind_of_ok hr

end Source
end BantamSyntax
