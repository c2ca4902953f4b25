import BantamSyntax.Proofs.Parsing.CompletePrograms
import BantamSyntax.Proofs.Parsing.Settling
import BantamSyntax.Proofs.Parsing.SoundPrograms

/-!
# Accepted texts

A text is accepted just if the grammar derives its tokens, and its program is the tree of the one
derivation in which each `else` belongs to the nearest `if`.
-/
namespace BantamSyntax

/-! ## whole parses -/

namespace Parser

variable {file : String} {p : Parser} {ts : List Token}

theorem Sees.length_le (h : p.Sees file ts) : ts.length ≤ p.feed.length + 2 := by
  cases h with
  | ending => simp
  | @token t ls _ _ _ _ _ feed =>
    have := List.length_filter_le (fun t : Token => decide (t.kind ≠ .comment)) (ls.map (·.token))
    have len : p.feed.length = ls.length := by rw [Feed.length, feed, List.length_map]
    simp only [List.length_cons, significant, len]
    simp only [List.length_map] at this
    omega

theorem Sees.clean {t : Token} (h : p.Sees file (t :: ts)) (ht : t.kind ≠ .error) :
    p.diagnostics = [] := by
  cases h with
  | ending _ _ _ clean => exact clean
  | token _ _ _ _ clean => exact clean ht

theorem Sees.eq_nil {t : Token} (h : p.Sees file (t :: ts)) (ht : t.kind = .endOfFile) :
    ts = [] := by
  cases h with
  | ending => rfl
  | token _ _ more => exact absurd ht more

end Parser

namespace Grammar

open BantamSyntax.Parser

/-- What follows in a parse when its first token has been read. -/
def parseRest : ParserM Program := do
  let result ← withSteps program
  let p ← get
  if p.diagnostics = [] then
    note (.parsed p.file result.classes.length)
    return result
  else throw (.rejected p.diagnostics.head?)

theorem parse_eq {p : Parser} {ls : List Lexeme} (silent : p.diagnostics = [])
    (feed : p.feed.toList = ls.map .ok) (complete : Complete ls) :
    ∃ q, parse p = parseRest q ∧ q.Sees p.file (significant ls) := by
  obtain ⟨q, hq, sees⟩ := advance_sees (p := { p with
    current := none, journal := p.journal ++ [.parsing p.file] }) rfl silent feed complete
  exact ⟨q, bind_of_ok (f := fun _ => parseRest) hq, sees⟩

variable {file : String} {p : Parser} {ts : List Token} {t : Token}

/-- Only at the end of the text does a program end. -/
theorem parseRest_sound (h : p.Sees file (t :: ts)) :
    (∃ r q w last, parseRest p = .ok r q ∧ t :: ts = w ++ [last] ∧ IsProgram file t.line w r ∧
      r.settled = true) ∨ ∃ d q, parseRest p = .error (.rejected (some d)) q := by
  obtain ⟨o, ho, hP⟩ := @program_reads file ts t (p.feed.length + 2) h.length_le
  cases o with
  | none =>
    obtain ⟨d, q, hq⟩ := ho p h
    exact .inr ⟨d, q, bind_of_error hq⟩
  | some o =>
    obtain ⟨r, us⟩ := o
    obtain ⟨w, hw, derived, settled, last, vs, rfl, ended⟩ := hP r us rfl
    obtain ⟨q, hq, sees⟩ := ho p h
    have hr : withSteps program p = .ok r q := hq
    have clean := sees.clean (by rw [ended]; decide)
    rw [sees.eq_nil ended] at hw
    refine .inl ⟨r, { q with journal := q.journal ++ [.parsed q.file r.classes.length] }, w, last,
      bind_eq_ok.2 ⟨r, q, hr, bind_eq_ok.2 ⟨q, q, rfl, ?_⟩⟩, hw, derived, settled⟩
    rw [if_pos clean]
    rfl

theorem parseRest_complete {w : List Token} {last : Token} {r : Program}
    (h : p.Sees file (t :: ts)) (hw : t :: ts = w ++ [last]) (ended : last.kind = .endOfFile)
    (derived : IsProgram file t.line w r) (settled : r.settled = true) :
    ∃ q, parseRest p = .ok r q := by
  have hn := h.length_le
  rw [hw] at h hn
  have run := derived.runs settled ended hn (by rw [← hw]; rfl)
  obtain ⟨q, hq, sees⟩ := run p h
  have hr : withSteps program p = .ok r q := hq
  refine ⟨{ q with journal := q.journal ++ [.parsed q.file r.classes.length] },
    bind_eq_ok.2 ⟨r, q, hr, bind_eq_ok.2 ⟨q, q, rfl, ?_⟩⟩⟩
  rw [if_pos (sees.clean (by rw [ended]; decide))]
  rfl

theorem parseRest_clean {r : Program} {q : Parser} (h : parseRest p = .ok r q) :
    q.diagnostics = [] := by
  obtain ⟨r', q', _, h⟩ := bind_eq_ok.1 h
  obtain ⟨_, _, hg, h⟩ := bind_eq_ok.1 h
  cases hg
  split at h
  · rename_i clean
    cases h
    exact clean
  · cases h

/-! ## texts -/

/-- The tokens of a text up to the end of it, without comments. -/
def tokens (text : String) : List Token :=
  ((Scanner.ofSource (.ofText text)).tokenize.1.lexemes.map (·.token)).filter (·.kind ≠ .comment)

/-- The grammar derives the tokens of the text, less the one at its end, as the program. -/
def Derives (text : String) (p : Program) : Prop :=
  IsProgram Source.anonymous (((tokens text).head?.map Token.line).getD 1) (tokens text).dropLast p

theorem significant_eq_append {ls : List Lexeme} (h : Complete ls) :
    ∃ w last, significant ls = w ++ [last] ∧ last.kind = .endOfFile := by
  induction h with
  | @ending l last =>
    exact ⟨[], l.token, significant_cons (by rw [last]; decide), last⟩
  | @cons l ls _ _ _ _ ih =>
    obtain ⟨w, last, hw, ended⟩ := ih
    by_cases kind : l.token.kind = .comment
    · exact ⟨w, last, by rw [significant_comment kind, hw], ended⟩
    · exact ⟨l.token :: w, last, by rw [significant_cons kind, hw]; rfl, ended⟩

/-- The parser of a text comes to see its tokens. -/
theorem parse_text (text : String) : ∃ p t ts w last, tokens text = t :: ts ∧
    t :: ts = w ++ [last] ∧ last.kind = .endOfFile ∧ p.Sees Source.anonymous (t :: ts) ∧
    (Source.ofText text).parse = parseRest p := by
  have faces := Scanner.ofSource_faces (Source.ofText_gives text Source.anonymous)
  have complete := Scanner.lexemesFrom_complete 1 (' ' :: normalize text.toList)
  obtain ⟨p, hp, sees⟩ := parse_eq (p := .ofScanner (.ofSource (.ofText text))) rfl
    (Scanner.feed_faces faces) complete
  obtain ⟨w, last, hw, ended⟩ := significant_eq_append complete
  have htokens : tokens text =
      significant (Scanner.lexemesFrom 1 (' ' :: normalize text.toList)) := by
    rw [tokens, Scanner.tokenize_faces faces]
    rfl
  obtain ⟨t, ts, hts⟩ := List.exists_cons_of_ne_nil sees.ne_nil
  rw [hts] at sees
  exact ⟨p, t, ts, w, last, htokens.trans hts, hts.symm.trans hw, ended, sees, hp⟩

theorem parse_of_parseText {text : String} {q : Program} (h : parseText text = .ok q) :
    ∃ s, (Source.ofText text).parse = .ok q s ∧ s.diagnostics = [] := by
  obtain ⟨s, _, _, _, _, _, _, _, _, hs⟩ := parse_text text
  rw [parseText, hs] at h
  rw [hs]
  cases hr : parseRest s with
  | error cause s' =>
    rw [hr] at h
    cases h
  | ok r s' =>
    rw [hr] at h
    cases h
    exact ⟨s', rfl, parseRest_clean hr⟩

theorem derives_iff {text : String} {t : Token} {ts w : List Token} {last : Token} {r : Program}
    (htokens : tokens text = t :: ts) (hw : t :: ts = w ++ [last]) :
    Derives text r ↔ IsProgram Source.anonymous t.line w r := by
  have hd : (t :: ts).dropLast = w := by rw [hw, List.dropLast_concat]
  rw [Derives, htokens, hd]
  rfl

theorem parseText_sound (text : String) :
    (∃ r, parseText text = .ok r ∧ Derives text r ∧ r.settled = true) ∨
      ∃ d, parseText text = .error (.rejected (some d)) := by
  obtain ⟨p, t, ts, w, last, htokens, hw, ended, sees, hp⟩ := parse_text text
  rcases parseRest_sound sees with ⟨r, q, v, last', hr, hv, derived, settled⟩ | ⟨d, q, hd⟩
  · exact .inl ⟨r, by rw [parseText, hp, hr], (derives_iff htokens hv).2 derived, settled⟩
  · exact .inr ⟨d, by rw [parseText, hp, hd]⟩

theorem parseText_complete {text : String} {r : Program} (derived : Derives text r)
    (settled : r.settled = true) : parseText text = .ok r := by
  obtain ⟨p, t, ts, w, last, htokens, hw, ended, sees, hp⟩ := parse_text text
  obtain ⟨q, hq⟩ :=
    parseRest_complete sees hw ended ((derives_iff htokens hw).1 derived) settled
  rw [parseText, hp, hq]

theorem Derives.settle {text : String} {r : Program} (h : Derives text r) :
    ∃ r', Derives text r' ∧ r'.settled = true :=
  IsProgram.settle h

/-- The parser accepts exactly what the grammar derives. The program is the only one that is
derived with each `else` at the nearest `if`, and whatever else is rejected with a diagnostic. -/
theorem parseText_exact (text : String) :
    ((∃ r, parseText text = .ok r) ↔ ∃ r, Derives text r) ∧
    (∀ r, parseText text = .ok r ↔
      Derives text r ∧ r.settled = true ∧ ∀ q, Derives text q → q.settled = true → q = r) ∧
    ((∃ d, parseText text = .error (.rejected (some d))) ↔ ¬ ∃ r, Derives text r) := by
  have accepted (r : Program) : parseText text = .ok r → Derives text r ∧ r.settled = true := by
    intro h
    rcases parseText_sound text with ⟨q, hq, hd⟩ | ⟨d, hd⟩
    · rw [h] at hq
      cases hq
      exact hd
    · rw [h] at hd
      cases hd
  have derivable : (∃ r, parseText text = .ok r) ↔ ∃ r, Derives text r := by
    constructor
    · exact fun ⟨r, h⟩ => ⟨r, (accepted r h).1⟩
    · rintro ⟨r, h⟩
      obtain ⟨q, hq, settled⟩ := h.settle
      exact ⟨q, parseText_complete hq settled⟩
  refine ⟨derivable, fun r => ⟨fun h => ⟨(accepted r h).1, (accepted r h).2,
    fun q hq settled => ?_⟩, fun h => parseText_complete h.1 h.2.1⟩, ?_⟩
  · have := parseText_complete hq settled
    rw [h] at this
    cases this
    rfl
  · rw [← derivable]
    constructor
    · rintro ⟨d, hd⟩ ⟨r, h⟩
      rw [h] at hd
      cases hd
    · intro none
      rcases parseText_sound text with ⟨r, h, _⟩ | h
      · exact absurd ⟨r, h⟩ none
      · exact h

end Grammar
end BantamSyntax
