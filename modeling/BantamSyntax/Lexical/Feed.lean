import BantamSyntax.Lexical.Scanner

/-!
# Feeds of lexemes

What a scanner gives when it is asked again and again. Each lexeme takes characters off the input,
so the list is finite: it ends with the end of the input, or where only failures would follow.
-/
namespace BantamSyntax
namespace Scanner

/-! ## shrinking -/

/-- An action that never makes a scanner larger, and at a failure makes it smaller or stuck. -/
structure Shrinks {α : Type} (x : ScannerM α) : Prop where
  ok : ∀ {s t a}, x s = .ok a t → t.weight ≤ s.weight
  error : ∀ {s t e}, x s = .error e t → t.weight < s.weight ∨ t.source.isStuck

theorem shrinks_pure {α : Type} (a : α) : Shrinks (pure a) where
  ok h := Nat.le_of_eq (congrArg weight (pure_eq_ok.1 h).2.symm)
  error h := absurd h pure_ne_error

theorem Shrinks.bind {α β : Type} {x : ScannerM α} {f : α → ScannerM β} (hx : Shrinks x)
    (hf : ∀ a, Shrinks (f a)) : Shrinks (x >>= f) where
  ok h := by
    obtain ⟨a, t, ha, h⟩ := bind_eq_ok.1 h
    exact Nat.le_trans ((hf a).ok h) (hx.ok ha)
  error h := by
    rcases bind_eq_error.1 h with h | ⟨a, t, ha, h⟩
    · exact hx.error h
    · exact ((hf a).error h).imp_left fun h => Nat.lt_of_lt_of_le h (hx.ok ha)

theorem shrinks_peek : Shrinks peek :=
  ⟨fun h => by cases h; exact Nat.le_refl _, fun h => by cases h⟩

theorem shrinks_advance : Shrinks advance :=
  ⟨fun h => Nat.le_trans (Nat.le_add_right _ _) (weight_of_advance h).2, weight_of_advance_error⟩

theorem shrinks_collect {σ : Type} {step : σ → Char → Option σ} {state : σ} :
    Shrinks (collect step state) := by
  suffices ∀ state s, (∀ {a t}, collect step state s = .ok a t → t.weight ≤ s.weight) ∧
      ∀ {e t}, collect step state s = .error e t → t.weight < s.weight ∨ t.source.isStuck from
    ⟨fun h => (this _ _).1 h, fun h => (this _ _).2 h⟩
  intro state s
  fun_induction collect step state s with
  | case1 state s hs =>
    exact ⟨fun h => by cases h; exact Nat.le_refl _, fun h => by cases h⟩
  | case2 state s state' hs c t ht cs last u hu ih =>
    have hw := shrinks_advance.ok ht
    refine ⟨fun h => ?_, fun h => by cases h⟩
    cases h
    exact Nat.le_trans (ih.1 hu) hw
  | case3 state s state' hs c t ht e u hu ih =>
    have hw := shrinks_advance.ok ht
    refine ⟨fun h => (by cases h), fun h => ?_⟩
    cases h
    exact (ih.2 hu).imp_left fun h => Nat.lt_of_lt_of_le h hw
  | case4 state s state' hs e t ht =>
    refine ⟨fun h => (by cases h), fun h => ?_⟩
    cases h
    exact shrinks_advance.error ht

theorem shrinks_collectWhile {p : Char → Bool} : Shrinks (collectWhile p) :=
  shrinks_collect.bind fun _ => shrinks_pure _

theorem shrinks_operator {first : Char} {line : Int} : Shrinks (operator first line) := by
  refine shrinks_peek.bind fun second => ?_
  split
  · exact shrinks_pure _
  · exact shrinks_advance.bind fun _ => shrinks_pure _
  · exact shrinks_collectWhile.bind fun _ => shrinks_pure _
  · refine shrinks_advance.bind fun _ => shrinks_collect.bind fun _ => ?_
    dsimp only
    split <;> exact shrinks_pure _
  · exact shrinks_pure _

theorem shrinks_lexemeFrom {first : Char} {line : Int} : Shrinks (lexemeFrom first line) := by
  unfold lexemeFrom
  split
  · exact shrinks_collectWhile.bind fun _ => shrinks_pure _
  split
  · exact shrinks_collectWhile.bind fun _ => shrinks_pure _
  split
  · refine shrinks_collect.bind fun _ => ?_
    dsimp only
    split <;> exact shrinks_pure _
  · exact shrinks_operator

theorem shrinks_skipBlanks : Shrinks skipBlanks :=
  shrinks_collectWhile.bind fun _ => shrinks_pure _

/-- Only the lexeme at the end of the input takes nothing. -/
theorem weight_of_scan {s t : Scanner} {l} (h : scan s = .ok l t) :
    l.token.kind = .endOfFile ∨ t.weight < s.weight := by
  obtain ⟨_, u, hu, h⟩ := bind_eq_ok.1 h
  have hu := shrinks_skipBlanks.ok hu
  obtain ⟨_, _, hg, h⟩ := bind_eq_ok.1 h
  cases hg
  cases hc : u.lookahead with
  | none =>
    simp only [hc] at h
    obtain ⟨rfl, rfl⟩ := pure_eq_ok.1 h
    exact .inl rfl
  | some first =>
    simp only [hc] at h
    obtain ⟨_, v, hv, h⟩ := bind_eq_ok.1 h
    obtain ⟨rfl, hv⟩ := weight_of_advance hv
    rw [hc] at hv
    exact .inr (Nat.lt_of_le_of_lt (shrinks_lexemeFrom.ok h) (Nat.lt_of_lt_of_le hv hu))

theorem shrinks_scan : Shrinks scan := by
  refine shrinks_skipBlanks.bind fun _ => Shrinks.bind ?_ fun s => ?_
  · exact ⟨fun h => by cases h; exact Nat.le_refl _, fun h => by cases h⟩
  cases s.lookahead with
  | none => exact shrinks_pure _
  | some first => exact shrinks_advance.bind fun _ => shrinks_lexemeFrom

end Scanner

/-! ## feeds -/

/-- What one request for a lexeme gives. -/
abbrev Scan := Except InputFailure Lexeme

/-- What successive requests give; the last one is given again ever after. -/
structure Feed where
  first : Scan
  rest : List Scan := []

namespace Feed

def toList (f : Feed) : List Scan :=
  f.first :: f.rest

def length (f : Feed) : Nat :=
  f.toList.length

/-- The feed after a request. -/
def next (f : Feed) : Feed :=
  match f.rest with
  | [] => f
  | first :: rest => ⟨first, rest⟩

end Feed

namespace Scanner

/-- What scanning gives until the end of the input, or until only failures would follow. -/
def feed (s : Scanner) : Feed :=
  match _h : s.scan with
  | .ok l t => ⟨.ok l, if _hl : l.token.kind = .endOfFile then [] else (feed t).toList⟩
  | .error cause t => ⟨.error cause, if _ht : t.source.isStuck then [] else (feed t).toList⟩
termination_by s.weight
decreasing_by
  · exact (weight_of_scan _h).resolve_left _hl
  · exact (shrinks_scan.error _h).resolve_right _ht

/-- The scanner after `n` requests, whatever they gave. -/
def after : Nat → Scanner → Scanner
  | 0, s => s
  | n + 1, s => match s.scan with
    | .ok _ t => after n t
    | .error _ t => after n t

/-! ## whole texts -/

/-- Lexemes up to the end of the input or the first failure, and that failure. -/
structure Lexemes where
  lexemes : List Lexeme
  failure : Option InputFailure := none

def Lexemes.ofScans : List Scan → Lexemes
  | [] => ⟨[], none⟩
  | .error cause :: _ => ⟨[], some cause⟩
  | .ok l :: rest =>
    let more := ofScans rest
    { more with lexemes := l :: more.lexemes }

def tokenize (s : Scanner) : Lexemes × Scanner :=
  let found := Lexemes.ofScans s.feed.toList
  (found, s.after (found.lexemes.length + if found.failure.isSome then 1 else 0))

end Scanner
end BantamSyntax
