import BantamSyntax.Proofs.Parsing.Requests
import BantamSyntax.Proofs.Parsing.Twins

/-!
# Runs of twins

A rule that is a twin goes from token to token and ends in one of a few ways, whatever its input
does. Two runs of twins on tokens of texts keep in step up to where the tokens are no longer alike.
-/
namespace BantamSyntax
namespace Parser

variable {lines : Int → Int → Prop} {may : TokenKind → Bool} {α β : Type} {R : α → β → Prop}
  {o o' : Option Token} {t u : Token} {x : ParserM α} {y : ParserM β} {p q p' q' : Parser}
  {expected : Expected} {file file' : String} {ts us ts' : List Token}

/-! ## one run -/

theorem token_eq (h : p.current = some t) : token p = .ok t p :=
  bind_eq_ok.2 ⟨p, p, rfl, by rw [h]; rfl⟩

theorem token_unprimed (h : p.current = none) : token p = .error .unprimed p :=
  bind_eq_error.2 (.inr ⟨p, p, rfl, by rw [h]; rfl⟩)

theorem fail_eq (h : p.current = some t) :
    (fail expected : ParserM α) p = rejection expected t p :=
  (bind_of_ok (token_eq h)).trans rfl

theorem current_of_advance (h : advance p = .ok () q) : ∃ t, q.current = some t := by
  have advanced := advance_advanced p
  rw [h] at advanced
  cases advanced with
  | @token comments l rest feed =>
    exact ⟨l.token, by simp [requested, Feed.lexemes_given feed]⟩

theorem Twin.ends (total : ∀ l, ∃ l', lines l l') (h : Twin lines may R o o' x y)
    (rel : Option.Rel (Token.Alike lines) o o') (current : p.current = o) : p.Ends may (x p) := by
  induction h generalizing p with
  | done => exact .result .refl
  | unprimed =>
    rw [bind_of_error (token_unprimed current)]
    exact .unprimed .refl current
  | look _ ih =>
    rw [bind_of_ok (token_eq current)]
    exact ih rel current
  | move leaves _ ih =>
    rw [← current] at leaves
    have advanced := advance_advanced p
    cases h : Parser.advance p with
    | ok _ q =>
      obtain ⟨t, ht⟩ := current_of_advance h
      obtain ⟨l, hl⟩ := total t.line
      have alike : t.Alike lines { t with line := l } := ⟨rfl, rfl, hl⟩
      rw [bind_of_ok h]
      exact .of_moves (.single ⟨leaves, h⟩) (ih t _ alike (.some alike) ht)
    | error cause q =>
      rw [h] at advanced
      rw [bind_of_error h]
      cases advanced
      exact .input .refl leaves h
  | file _ ih =>
    rw [bind_of_ok (show (get : ParserM Parser) p = .ok p p from rfl)]
    exact ih p.file p.file rel current
  | fail =>
    cases h : p.current with
    | none =>
      rw [Parser.fail, bind_of_error (token_unprimed h)]
      exact .unprimed .refl h
    | some t =>
      rw [fail_eq h]
      exact .rejected .refl h
  | stuck => exact .stuck .refl

theorem alike_self (o : Option Token) : Option.Rel (Token.Alike Eq) o o := by
  cases o with
  | none => exact .none
  | some t => exact .some ⟨rfl, rfl, rfl⟩

theorem Twins.ends {x : ParserM α} {R : α → α → Prop} (h : Twins Eq may R x x) (p : Parser) :
    p.Ends may (x p) :=
  (h _ _ (alike_self _)).ends (fun l => ⟨l, rfl⟩) (alike_self _) rfl

/-! ## two runs -/

/-- How two runs end, of which the first sees `ts` and the second `us`. Where their tokens are no
longer alike no more is said of the second. -/
inductive Lockstep (lines : Int → Int → Prop) {α β : Type} (R : α → β → Prop)
    (file file' : String) : List Token → List Token → EStateM.Result ParseFailure Parser α →
      EStateM.Result ParseFailure Parser β → Prop where
  | step {t u : Token} {ts us : List Token} {r : EStateM.Result ParseFailure Parser α}
      {r' : EStateM.Result ParseFailure Parser β} (alike : t.Alike lines u)
      (h : Lockstep lines R file file' ts us r r') :
      Lockstep lines R file file' (t :: ts) (u :: us) r r'
  | result {ts us : List Token} {a : α} {b : β} {q q' : Parser} (seen : q.Sees file ts)
      (seen' : q'.Sees file' us) (h : R a b) :
      Lockstep lines R file file' ts us (.ok a q) (.ok b q')
  | rejected {t u : Token} {ts us : List Token} {expected : Expected} {q q' : Parser}
      (seen : q.Sees file (t :: ts)) (seen' : q'.Sees file' (u :: us)) (alike : t.Alike lines u) :
      Lockstep lines R file file' (t :: ts) (u :: us) (rejection expected t q)
        (rejection expected u q')
  | apart {t u : Token} {ts us : List Token} {q : Parser}
      {r : EStateM.Result ParseFailure Parser α} {r' : EStateM.Result ParseFailure Parser β}
      (seen : q.Sees file (t :: ts)) (ends : q.Ends passes r) (differ : ¬ t.Alike lines u) :
      Lockstep lines R file file' (t :: ts) (u :: us) r r'
  | stuck {ts us : List Token} {q : Parser} {r' : EStateM.Result ParseFailure Parser β} :
      Lockstep lines R file file' ts us (.error .stuck q) r'

theorem Twin.lockstep (total : ∀ l, ∃ l', lines l l')
    (h : Twin lines passes R o o' x y) (start : o = some t) (start' : o' = some u)
    (alike : t.Alike lines u) (seen : p.Sees file (t :: ts)) (seen' : p'.Sees file' (u :: us)) :
    Lockstep lines R file file' (t :: ts) (u :: us) (x p) (y p') := by
  induction h generalizing p p' t u ts us with
  | done h => exact .result seen seen' h
  | unprimed => cases start
  | look _ ih =>
    cases start
    cases start'
    rw [bind_of_ok (token_eq seen.current_eq), bind_of_ok (token_eq seen'.current_eq)]
    exact ih rfl rfl alike seen seen'
  | @move _ _ f g leaves h ih =>
    subst start
    have leaves : passes t.kind = true := leaves
    obtain ⟨q, hq, next⟩ := runs_advance leaves p seen
    obtain ⟨q', hq', next'⟩ := runs_advance (alike.kind ▸ leaves) p' seen'
    obtain ⟨t', ts, rfl⟩ := List.exists_cons_of_ne_nil next.ne_nil
    obtain ⟨u', us, rfl⟩ := List.exists_cons_of_ne_nil next'.ne_nil
    rw [bind_of_ok hq, bind_of_ok hq']
    refine .step alike ?_
    by_cases alike' : t'.Alike lines u'
    · exact ih t' u' alike' rfl rfl alike' next next'
    · obtain ⟨l, hl⟩ := total t'.line
      have own : t'.Alike lines { t' with line := l } := ⟨rfl, rfl, hl⟩
      exact .apart next ((h t' _ own).ends total (.some own) next.current_eq) alike'
  | file _ ih =>
    rw [bind_of_ok (show (get : ParserM Parser) p = .ok p p from rfl),
      bind_of_ok (show (get : ParserM Parser) p' = .ok p' p' from rfl)]
    exact ih p.file p'.file start start' alike seen seen'
  | fail =>
    rw [fail_eq seen.current_eq, fail_eq seen'.current_eq]
    exact .rejected seen seen' alike
  | stuck => exact .stuck

theorem Twins.lockstep (h : Twins lines passes R x y) (total : ∀ l, ∃ l', lines l l')
    (alike : t.Alike lines u) (seen : p.Sees file (t :: ts)) (seen' : p'.Sees file' (u :: us)) :
    Lockstep lines R file file' (t :: ts) (u :: us) (x p) (y p') :=
  (h.at alike).lockstep total rfl rfl alike seen seen'

/-! ## what two runs have in common -/

/-- A parser sees one list of tokens only. -/
theorem Sees.unique (h : p.Sees file ts) (h' : q.Sees file' us) (current : p.current = q.current)
    (feed : p.feed = q.feed) : ts = us := by
  cases h with
  | ending _ hp last =>
    cases h' with
    | ending _ hq =>
      rw [current, hq] at hp
      rw [Option.some.inj hp]
    | token _ hq more =>
      rw [current, hq] at hp
      exact absurd (Option.some.inj hp ▸ last) more
  | token _ hp more _ _ fed =>
    cases h' with
    | ending _ hq last =>
      rw [current, hq] at hp
      exact absurd (Option.some.inj hp ▸ last) more
    | token _ hq _ _ _ fed' =>
      rw [current, hq] at hp
      rw [feed, fed'] at fed
      rw [Option.some.inj hp, List.map_injective_iff.2 (fun _ _ h => by injection h) fed]

/-- What a parser sees after going on is the rest of what it saw. -/
theorem Moves.sees (h : p.Moves passes q) (seen : p.Sees file ts) :
    ∃ w us, ts = w ++ us ∧ q.Sees file us := by
  induction h with
  | refl => exact ⟨[], ts, rfl, seen⟩
  | tail _ step ih =>
    obtain ⟨w, us, hts, now⟩ := ih
    obtain ⟨u, us, rfl⟩ := List.exists_cons_of_ne_nil now.ne_nil
    have leaves := step.leaves
    rw [now.current_eq] at leaves
    obtain ⟨r, hr, next⟩ := runs_advance leaves _ now
    rw [step.advanced] at hr
    cases hr
    exact ⟨w ++ [u], us, hts.trans (List.append_cons ..), next⟩

section

variable {r : EStateM.Result ParseFailure Parser α} {r' : EStateM.Result ParseFailure Parser β}

theorem Lockstep.length_le (h : Lockstep lines R file file' ts us r r')
    (rejected : r = rejection expected t q) (seen : q.Sees file ts') : ts'.length ≤ ts.length := by
  induction h with
  | step _ _ ih => exact Nat.le_succ_of_le (ih rejected)
  | rejected seen' =>
    obtain ⟨current, feed⟩ := rejection_inj rejected
    exact Nat.le_of_eq (congrArg List.length (seen.unique seen' current.symm feed.symm))
  | apart start ends =>
    obtain ⟨q', moves, current, feed⟩ := ends.of_rejection rejected
    obtain ⟨w, us, hw, seen'⟩ := moves.sees start
    rw [hw, ← seen'.unique seen current feed, List.length_append]
    exact Nat.le_add_left ..
  | result | stuck => cases rejected

theorem first_alike {P : Token → Token → Prop} {w w' : List Token} {c c' : Token}
    {zs zs' : List Token} (h : List.Forall₂ P (w ++ [c]) (w' ++ [c'])) (ht : t :: ts = w ++ c :: zs)
    (hu : u :: us = w' ++ c' :: zs') : P t u := by
  have length := h.length_eq
  cases w <;> cases w' <;> simp_all

/-- If the first run rejects a token, and all tokens up to that one are alike, then the second run
rejects the token that stands in its place, for the same reason. -/
theorem Lockstep.rejected_right {w w' : List Token} {c c' : Token} {zs zs' : List Token}
    (h : Lockstep lines R file file' ts us r r') (rejected : r = rejection expected c q)
    (seen : q.Sees file (c :: zs)) (hts : ts = w ++ c :: zs) (hus : us = w' ++ c' :: zs')
    (alike : List.Forall₂ (Token.Alike lines) (w ++ [c]) (w' ++ [c'])) :
    ∃ expected' q', r' = rejection expected' c' q' ∧ q'.Sees file' (c' :: zs') ∧
      expected'.message = expected.message := by
  induction h generalizing w w' with
  | step first h ih =>
    cases w with
    | nil =>
      -- The first run would have gone on from the token that it rejects.
      have le := h.length_le rejected seen
      rw [← (List.cons.inj hts).2] at le
      exact absurd le (by simp)
    | cons t w =>
      cases w' with
      | nil => simpa using alike.length_eq
      | cons u w' =>
        cases alike with
        | cons _ rest =>
          exact ih rejected (List.cons.inj hts).2 (List.cons.inj hus).2 rest
  | rejected seen₁ seen₂ =>
    obtain ⟨current, feed⟩ := rejection_inj rejected
    have same := seen₁.unique seen current feed
    rw [hts] at same
    have none : w = [] := by simpa using congrArg List.length same
    subst none
    cases w' with
    | cons => simpa using alike.length_eq
    | nil =>
      obtain ⟨rfl, rfl⟩ := List.cons.inj hts
      obtain ⟨rfl, rfl⟩ := List.cons.inj hus
      exact ⟨_, _, rfl, seen₂, rejection_message rejected⟩
  | apart _ _ differ =>
    exact absurd (first_alike alike hts hus) differ
  | result | stuck => cases rejected

/-- If the first run gives a result, and all tokens are alike, then so does the second run. -/
theorem Lockstep.result_right {a : α} (h : Lockstep lines R file file' ts us r r')
    (result : r = .ok a q) (alike : List.Forall₂ (Token.Alike lines) ts us) :
    ∃ b q', r' = .ok b q' ∧ R a b := by
  induction h with
  | step _ _ ih =>
    cases alike with
    | cons _ rest => exact ih result rest
  | result _ _ h =>
    cases result
    exact ⟨_, _, rfl, h⟩
  | rejected => cases result
  | apart _ _ differ =>
    cases alike with
    | cons first => exact absurd first differ
  | stuck => cases result

end

end Parser
end BantamSyntax
