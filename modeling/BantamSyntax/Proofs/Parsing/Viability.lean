import BantamSyntax.Proofs.Parsing.Lockstep
import BantamSyntax.Proofs.Parsing.SoundExpressions
import BantamSyntax.Proofs.Printing.Symbols

/-!
# Viability

A rule rejects a token only where all it has read before can still be completed to something that it
reads. That is kept by putting rules together: what is begun in one rule is completed in that rule,
and then in the rules after it.
-/
namespace BantamSyntax

/-! ## completions -/

/-- Whatever was begun can be completed with tokens of these. -/
def Symbol.completing : List Symbol :=
  [opening, closing, openBrace, closeBrace, semicolon, comma, equals, (.identifier, "a"),
    (.classWord, "class")]

/-- The token that completes what lacks one of this kind. -/
def Token.completing (kind : TokenKind) : Token :=
  ⟨kind, (Symbol.completing.lookup kind).getD "", 0⟩

/-- The kind is that of a token for completions. -/
def TokenKind.completes (kind : TokenKind) : Bool :=
  (Token.completing kind).symbol ∈ Symbol.completing

/-- What is missing for `P` can be made up for. -/
def Completable {α : Type} (P : List Token → α → Prop) : Prop :=
  ∃ v a, (∀ t ∈ v, t.symbol ∈ Symbol.completing) ∧ P v a

namespace Completable

variable {α β : Type} {P Q : List Token → α → Prop} {t : Token} {v : List Token} {a : α}

theorem of_nil (h : P [] a) : Completable P :=
  ⟨[], a, by simp, h⟩

theorem of_append (hv : ∀ t ∈ v, t.symbol ∈ Symbol.completing)
    (h : Completable fun w => P (v ++ w)) : Completable P := by
  obtain ⟨w, a, hw, h⟩ := h
  exact ⟨v ++ w, a, List.forall_mem_append.2 ⟨hv, hw⟩, h⟩

theorem of_cons (ht : t.symbol ∈ Symbol.completing) (h : Completable fun w => P (t :: w)) :
    Completable P :=
  .of_append (v := [t]) (by simpa using ht) h

theorem imp (h : Completable P) (hP : ∀ w a, P w a → Q w a) : Completable Q := by
  obtain ⟨v, a, hv, h⟩ := h
  exact ⟨v, a, hv, hP v a h⟩

theorem bind {R : List Token → β → Prop} (h : Completable P)
    (hf : ∀ w a, P w a → Completable fun v => R (w ++ v)) : Completable R := by
  obtain ⟨v, a, hv, hP⟩ := h
  exact .of_append hv (hf v a hP)

end Completable

namespace Parser

/-! ## rules -/

/-- Started at the token, the rule reads what is `P` with its result, and wherever it stops before
that, what it has read can be completed to such. -/
inductive Viable {α : Type} : (List Token → α → Prop) → Token → ParserM α → Prop where
  | done {P : List Token → α → Prop} {t : Token} {a : α} (h : P [] a) : Viable P t (pure a)
  | look {P : List Token → α → Prop} {t : Token} {f : Token → ParserM α} (h : Viable P t (f t)) :
      Viable P t (token >>= f)
  | move {P : List Token → α → Prop} {t : Token} {f : Unit → ParserM α}
      (leaves : passes t.kind = true) (h : ∀ u, Viable (fun w => P (t :: w)) u (f ())) :
      Viable P t (advance >>= f)
  | file {P : List Token → α → Prop} {t : Token} {f : String → ParserM α}
      (h : ∀ name, Viable P t (f name)) : Viable P t (get >>= fun p => f p.file)
  | fail {P : List Token → α → Prop} {t : Token} {expected : Expected} (h : Completable P) :
      Viable P t (fail expected)
  | stuck {P : List Token → α → Prop} {t : Token} (h : Completable P) : Viable P t (throw .stuck)

variable {α β : Type} {P : List Token → α → Prop} {Q : List Token → β → Prop} {t : Token}
  {x y : ParserM α} {f : α → ParserM β} {kind : TokenKind} {expected : Expected}

/-- A rule that starts at a token for completions can be completed from its start. -/
theorem Viable.completable (h : Viable P t x) (ht : t.symbol ∈ Symbol.completing) :
    Completable P := by
  induction h with
  | done h => exact .of_nil h
  | look _ ih => exact ih ht
  | move _ _ ih => exact .of_cons ht (ih (.completing .comma) (by decide))
  | file _ ih => exact ih "" ht
  | fail h | stuck h => exact h

theorem completable_of_forall (h : ∀ t, Viable P t x) : Completable P :=
  (h (.completing .comma)).completable (by decide)

theorem Viable.bind (h : Viable P t x)
    (hf : ∀ w a, P w a → ∀ u, Viable (fun v => Q (w ++ v)) u (f a)) : Viable Q t (x >>= f) := by
  induction h generalizing Q with
  | done h =>
    rw [pure_bind]
    exact hf [] _ h _
  | look _ ih =>
    rw [bind_assoc]
    exact .look (ih hf)
  | @move P t _ leaves _ ih =>
    rw [bind_assoc]
    exact .move leaves fun u => ih u fun w a hw => hf (t :: w) a hw
  | @file _ _ g _ ih =>
    rw [bind_assoc]
    exact .file (f := fun name => g name >>= f) fun name => ih name hf
  | fail h =>
    rw [fail_bind]
    exact .fail (h.bind fun w a hw => completable_of_forall (hf w a hw))
  | stuck h => exact .stuck (h.bind fun w a hw => completable_of_forall (hf w a hw))

/-- What comes next may also depend on the token that the first rule starts at, if that rule takes
a token at all. -/
theorem Viable.bindFirst (h : Viable P t x) (ne : ∀ a, ¬ P [] a)
    (hc : ∀ w a, P w a → Completable fun v => Q (w ++ v))
    (hf : ∀ w a, P (t :: w) a → ∀ u, Viable (fun v => Q (t :: w ++ v)) u (f a)) :
    Viable Q t (x >>= f) := by
  induction h with
  | done h => exact absurd h (ne _)
  | look _ ih =>
    rw [bind_assoc]
    exact .look (ih ne hc hf)
  | move leaves h =>
    rw [bind_assoc]
    exact .move leaves fun u => (h u).bind hf
  | @file _ _ g _ ih =>
    rw [bind_assoc]
    exact .file (f := fun name => g name >>= f) fun name => ih name ne hc hf
  | fail h =>
    rw [fail_bind]
    exact .fail (h.bind hc)
  | stuck h => exact .stuck (h.bind hc)

theorem Viable.imp {P' : List Token → α → Prop} (h : Viable P t x) (hP : ∀ w a, P w a → P' w a) :
    Viable P' t x := by
  induction h generalizing P' with
  | done h => exact .done (hP _ _ h)
  | look _ ih => exact .look (ih hP)
  | move leaves _ ih => exact .move leaves fun u => ih u fun w a hw => hP _ a hw
  | file _ ih => exact .file fun name => ih name hP
  | fail h => exact .fail (h.imp hP)
  | stuck h => exact .stuck (h.imp hP)

/-! ## single steps -/

theorem passes_of_completes (h : kind.completes = true) : passes kind = true := by
  cases kind <;> first | rfl | cases h

namespace Viable

theorem take {f : Token → ParserM α} (leaves : passes t.kind = true)
    (h : ∀ u, Viable (fun w => P (t :: w)) u (f t)) : Viable P t (take >>= f) := by
  rw [Parser.take, bind_assoc]
  refine .look ?_
  rw [bind_assoc]
  exact .move leaves h

theorem ifCheck (hx : t.kind = kind → Viable P t x) (hy : t.kind ≠ kind → Viable P t y) :
    Viable P t (do if ← check kind then x else y) := by
  rw [check, bind_assoc]
  refine .look ?_
  rw [pure_bind]
  by_cases h : t.kind = kind
  · simpa [h] using hx h
  · simpa [h] using hy h

/-- If the expected token is missing, it is put in. -/
theorem expect {f : Token → ParserM α} (known : kind.completes = true)
    (h : ∀ u, u.kind = kind → ∀ t, Viable (fun w => P (u :: w)) t (f u)) :
    Viable P t (expect kind expected >>= f) := by
  have split : (Parser.expect kind expected >>= f) =
      (do if ← check kind then Parser.take >>= f else Parser.fail expected) := by
    rw [Parser.expect, bind_assoc]
    congr 1
    funext b
    cases b
    · exact fail_bind
    · rfl
  rw [split]
  have leaves := passes_of_completes known
  refine .ifCheck (fun ht => .take (ht ▸ leaves) fun u => h t ht u) fun _ => .fail ?_
  exact .of_cons (of_decide_eq_true known) (completable_of_forall (h _ rfl))

theorem name {f : String → ParserM α}
    (h : ∀ u, u.kind = .identifier → ∀ t, Viable (fun w => P (u :: w)) t (f u.spelling)) :
    Viable P t (name expected >>= f) := by
  rw [Parser.name, bind_assoc]
  refine .expect rfl fun u hu t => ?_
  rw [pure_bind]
  exact h u hu t

theorem ifTakeIf (leaves : passes kind = true)
    (hx : t.kind = kind → ∀ u, Viable (fun w => P (t :: w)) u x)
    (hy : t.kind ≠ kind → Viable P t y) : Viable P t (do if ← takeIf kind then x else y) := by
  have split : (do if ← takeIf kind then x else y) =
      (do if ← check kind then Parser.advance >>= fun _ => x else y) := by
    rw [takeIf, bind_assoc]
    congr 1
    funext b
    cases b
    · exact pure_bind _ _
    · simp only [if_true, bind_assoc, pure_bind]
  rw [split]
  exact .ifCheck (fun ht => .move (ht ▸ leaves) (hx ht)) hy

end Viable

/-! ## repetition -/

section

variable {item : ParserM α}

open Grammar

theorem afterCommas_viable (hi : ∀ t, Viable (fun w _ => ∃ a, P w a) t item) (n : Nat) (t : Token) :
    Viable (fun w _ => ∀ v x, P v x → ∃ xs, IsCommaList P (v ++ w) (x :: xs)) t
      (afterCommas item n) := by
  have alone (v : List Token) (x : α) (h : P v x) : ∃ xs, IsCommaList P (v ++ []) (x :: xs) :=
    ⟨[], by simpa using IsCommaList.one h⟩
  induction n generalizing t with
  | zero => exact .stuck (.of_nil (a := []) alone)
  | succ n ih =>
    refine .ifTakeIf rfl (fun comma u => ?_) fun _ => .done alone
    refine (hi u).bind fun w _ ⟨a, ha⟩ u => (ih u).bind fun w' _ hw' _ => .done fun v x hx => ?_
    obtain ⟨xs, hxs⟩ := hw' w a ha
    exact ⟨a :: xs, by simpa using IsCommaList.cons hx comma hxs⟩

theorem commaList_viable (hi : ∀ t, Viable (fun w _ => ∃ a, P w a) t item) (n : Nat) (t : Token) :
    Viable (fun w _ => ∃ xs, IsCommaList P w xs) t (commaList n item) := by
  refine .ifCheck (fun _ => .done ⟨[], [], rfl, by simp, .nil⟩) fun _ => ?_
  refine (hi t).bind fun w _ ⟨a, ha⟩ u => (afterCommas_viable hi n u).bind fun w' _ hw' _ => ?_
  obtain ⟨xs, hxs⟩ := hw' w a ha
  exact .done ⟨a :: xs, by simpa using hxs⟩

theorem untilBrace_viable (hi : ∀ t, Viable (fun w _ => ∃ a, P w a) t item) (n : Nat) (t : Token) :
    Viable (fun w _ => ∃ xs, IsRow P w xs) t (untilBrace item n) := by
  induction n generalizing t with
  | zero => exact .stuck (.of_nil (a := []) ⟨[], .nil⟩)
  | succ n ih =>
    have none : ∃ xs, IsRow P [] xs := ⟨[], .nil⟩
    refine .ifCheck (fun _ => .done none) fun _ => .ifCheck (fun _ => .done none) fun _ => ?_
    refine (hi t).bind fun w _ ⟨a, ha⟩ u => (ih u).bind fun w' _ ⟨xs, hxs⟩ _ => .done ?_
    exact ⟨a :: xs, by simpa using hxs.cons ha⟩

end

/-! ## runs -/

/-- A rule that starts at a token of a text and rejects a later one has read the tokens in between,
and these can be completed. -/
theorem Viable.rejected {file : String} {ts : List Token} {c : Token} {p q : Parser}
    (h : Viable P t x) (seen : p.Sees file (t :: ts)) (rejected : x p = rejection expected c q) :
    ∃ (w us : List Token) (r : Parser), t :: ts = w ++ us ∧ r.Sees file us ∧
      r.current = q.current ∧ r.feed = q.feed ∧ Completable fun v => P (w ++ v) := by
  induction h generalizing p ts with
  | done => cases rejected
  | look _ ih =>
    rw [bind_of_ok (token_eq seen.current_eq)] at rejected
    exact ih seen rejected
  | @move _ t f leaves _ ih =>
    obtain ⟨q', hq, next⟩ := runs_advance leaves p seen
    obtain ⟨u, ts, rfl⟩ := List.exists_cons_of_ne_nil next.ne_nil
    rw [bind_of_ok hq] at rejected
    obtain ⟨w, us, r, hw, seen', current, feed, open'⟩ := ih u next rejected
    exact ⟨t :: w, us, r, by rw [hw, List.cons_append], seen', current, feed, open'⟩
  | file _ ih =>
    rw [bind_of_ok (show (get : ParserM Parser) p = .ok p p from rfl)] at rejected
    exact ih p.file seen rejected
  | fail h =>
    rw [fail_eq seen.current_eq] at rejected
    obtain ⟨current, feed⟩ := rejection_inj rejected
    exact ⟨[], _, p, rfl, seen, current, feed, h⟩
  | stuck => cases rejected

end Parser
end BantamSyntax
