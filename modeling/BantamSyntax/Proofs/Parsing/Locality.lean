import BantamSyntax.Proofs.Parsing.Layout
import BantamSyntax.Proofs.Scanning.Beginnings

/-!
# Locality of rejections

A syntax error is settled by the text up to one character past the token that is rejected. Whatever
comes then, the text is rejected at that token, with the same reports.
-/
namespace BantamSyntax
namespace Grammar

open BantamSyntax.Parser

variable {text text' name name' file : String} {w w' us us' vs : List Token} {c c' : Token}
  {expected expected' : Expected} {p q p' q' : Parser} {l m : Lexeme} {n e : Nat}

/-! ## texts that begin with the same lexemes -/

/-- A parser that sees the same tokens up to the one that is rejected rejects it, too. -/
theorem RejectedAt.again (h : RejectedAt text name w c us expected p q)
    (sees : p'.Sees file (w ++ c :: us')) (steps : p.feed.length + 2 ≤ n) :
    ∃ expected' q', program n p' = rejection expected' c q' ∧ q'.current = some c ∧
      expected'.message = expected.message :=
  program_rejected h.start sees steps rfl h.rejected h.there

theorem RejectedAt.not_parsed (h : RejectedAt text name w c us expected p q)
    (begun : tokens text' = w ++ c :: us') {r : Program} {q' : Parser} :
    (Source.ofText text' name').parse ≠ .ok r q' := by
  intro parsed
  obtain ⟨p', hp, sees, -⟩ := parse_outcome text' name'
  obtain ⟨_, ok⟩ := program_of_parseRest (hp.symm.trans parsed)
  exact h.not_accepted (begun ▸ sees) rfl ok

/-- Texts that have the tokens up to one that is rejected in common are rejected there, for the same
reason. -/
theorem RejectedAt.agree (h : RejectedAt text name w c us expected p q)
    (h' : RejectedAt text' name' w' c' us' expected' p' q')
    (begun : tokens text' = w ++ c :: vs) : c' = c ∧ expected'.message = expected.message := by
  have steps := Nat.le_max_left (p.feed.length + 2) (p'.feed.length + 2)
  have steps' := Nat.le_max_right (p.feed.length + 2) (p'.feed.length + 2)
  obtain ⟨e, r, run, current, message⟩ := h.again (h'.split.symm.trans begun ▸ h'.start) steps
  obtain ⟨e', r', run', current', message'⟩ := h'.again h'.start steps'
  have same := run.symm.trans run'
  obtain rfl : c = c' :=
    Option.some.inj (current.symm.trans ((rejection_inj same).1.trans current'))
  exact ⟨rfl, message'.symm.trans ((rejection_message same).symm.trans message)⟩

/-- What is wrong with a lexeme is wrong with its token in any text. -/
theorem diagnostic?_of_token (hl : l ∈ lexemes text name) (hm : m ∈ lexemes text' name')
    (same : l.token = m.token) (file : String) : l.diagnostic? file = m.diagnostic? file := by
  rw [lexemes_eq] at hl hm
  rw [Lexeme.diagnostic?, Lexeme.diagnostic?, same,
    Scanner.fault_of_spelling hl hm (congrArg Token.spelling same)]

/-- A rejection is the same in every text that begins with the lexemes taken. -/
theorem parse_begun {cause : ParseFailure} (h : (Source.ofText text name).parse = .error cause q)
    (begun : (lexemes text name).take q.taken <+: lexemes text' name) :
    ∃ q', (Source.ofText text' name).parse = .error cause q' ∧ q'.diagnostics = q.diagnostics := by
  obtain ⟨before, l, rest, expected, p, q, split, stands, rejected, rfl, rfl⟩ := parse_stands h
  have taken : (lexemes text name).take q.taken = before ++ [l] := split ▸ stands.take_taken
  rw [register, taken] at begun
  have mem : l ∈ lexemes text' name := begun.subset (by simp)
  obtain ⟨vs, begun⟩ := begun
  have begun : tokens text' = significant before ++ l.token :: significant vs := by
    rw [tokens_eq_significant text' name, ← begun, List.append_assoc, significant_append,
      List.singleton_append, significant_cons rejected.kept]
  cases h' : (Source.ofText text' name).parse with
  | ok r q' => exact absurd h' (rejected.not_parsed begun)
  | error cause q' =>
    obtain ⟨before', l', rest', expected', p', q', split', stands', rejected', rfl, rfl⟩ :=
      parse_stands h'
    obtain ⟨token, message⟩ := rejected.agree rejected' begun
    have mem' : l' ∈ lexemes text' name := by simp [split']
    have found := diagnostic?_of_token mem' mem token name
    have refused : refusal expected' l'.token name = refusal expected l.token name := by
      rw [refusal, refusal, token, message]
    have reports : (q'.register (refusal expected' l'.token name)).diagnostics =
        (q.register (refusal expected l.token name)).diagnostics := by
      have complete := lexemes_complete text name
      have complete' := lexemes_complete text' name
      rw [split] at complete
      rw [split'] at complete'
      rw [register, register, diagnostics_of_standsAt complete stands,
        diagnostics_of_standsAt complete' stands', found, refused]
    exact ⟨_, by rw [reports], reports⟩

/-! ## texts that begin with the same characters -/

/-- The token is the last of the first `n` of the text, and ends at the offset. Offsets count the
characters of the normalised text. -/
def EndsAt (text name : String) (n : Nat) (c : Token) (offset : Nat) : Prop :=
  ∃ gaps before, ((lexemes text name).take n).map (·.token) = before ++ [c] ∧
    Tiles 1 ((normalize text.toList).take offset) gaps (before ++ [c])

theorem lexemes_normalized (text name : String) :
    lexemes text name = Scanner.lexemesFrom 1 (normalize text.toList) :=
  (lexemes_eq text name).trans (Scanner.lexemesFrom_blank rfl)

theorem exists_endsAt {before : List Lexeme}
    (taken : (lexemes text name).take n = before ++ [l]) : ∃ e, EndsAt text name n l.token e := by
  obtain ⟨gaps, tiles⟩ := Scanner.lexemesFrom_tiles 1 _ (return_notMem_normalize text.toList)
  rw [← lexemes_normalized text name] at tiles
  have first := tiles.take n
  have tokens : ((lexemes text name).take n).map (·.token) = before.map (·.token) ++ [l.token] := by
    rw [taken, List.map_append]
    rfl
  rw [← List.map_take, tokens] at first
  exact ⟨_, _, _, tokens, first⟩

/-- Texts that have the characters up to the one after a token in common have the lexemes up to
that token in common. -/
theorem EndsAt.begun (ends : EndsAt text name n c e) (followed : e < (normalize text.toList).length)
    (agree : (normalize text'.toList).take (e + 1) = (normalize text.toList).take (e + 1))
    (more : ∀ l ∈ (lexemes text name).take n, l.token.kind ≠ .endOfFile) :
    (lexemes text name).take n <+: lexemes text' name' := by
  obtain ⟨gaps, before, taken, tiles⟩ := ends
  rw [← taken] at tiles
  generalize hts : ((lexemes text name).take n).map (·.token) = ts at tiles
  have here : normalize text.toList = weave gaps ts ++ (normalize text.toList)[e] ::
      (normalize text.toList).drop (e + 1) := by
    rw [tiles.text, ← List.drop_eq_getElem_cons followed, List.take_append_drop]
  have there : normalize text'.toList = weave gaps ts ++ (normalize text.toList)[e] ::
      (normalize text'.toList).drop (e + 1) := by
    rw [tiles.text, List.append_cons, List.take_append_getElem followed, ← agree,
      List.take_append_drop]
  have given : ts <+: (Scanner.lexemesFrom 1 (normalize text.toList)).map (·.token) := by
    rw [← lexemes_normalized text name, ← hts]
    exact (List.take_prefix ..).map _
  have same : ((Scanner.lexemesFrom 1 (normalize text'.toList)).take ts.length) =
      (Scanner.lexemesFrom 1 (normalize text.toList)).take ts.length := by
    rw [here] at given
    rw [here, there]
    exact Scanner.take_lexemesFrom tiles.size
      (fun gap hg => Scanner.isBlank_of_tiled (tiles.blank gap hg))
      (hts ▸ List.forall_mem_map.2 more) given
  rw [← lexemes_normalized text name, ← lexemes_normalized text' name'] at same
  have count : ts.length = ((lexemes text name).take n).length := by rw [← hts, List.length_map]
  rw [count, ← List.prefix_iff_eq_take.1 (List.take_prefix ..)] at same
  exact same ▸ List.take_prefix ..

/-- A syntax error depends on the text up to one character past the rejected token. Every text that
agrees so far is rejected, with the same reports, unless it is the end of the text that is not
expected. -/
theorem local_rejection {text name : String} {d : Diagnostic}
    (registered : d ∈ (stateOf (Source.ofText text name).parse).diagnostics)
    (syntactic : d.kind = .syntactic) :
    let q := stateOf (Source.ofText text name).parse
    ∃ c expected, q.current = some c ∧ d = refusal expected c name ∧
      (∃ e, EndsAt text name q.taken c e) ∧
      ∀ e, EndsAt text name q.taken c e → c.kind ≠ .endOfFile →
        e < (normalize text.toList).length → ∀ text' : String,
        (normalize text'.toList).take (e + 1) = (normalize text.toList).take (e + 1) →
          ∃ cause q', (Source.ofText text name).parse = .error cause q ∧
            (Source.ofText text' name).parse = .error cause q' ∧
            q'.diagnostics = q.diagnostics := by
  cases h : (Source.ofText text name).parse with
  | ok r q =>
    obtain ⟨p, -, -, -, hp, -⟩ := parse_begins text name
    rw [h, stateOf_ok, parseRest_clean (hp.symm.trans h)] at registered
    cases registered
  | error cause q' =>
    rw [h, stateOf_error] at registered
    obtain ⟨before, l, rest, expected, p, q, split, stands, -, -, hq'⟩ := parse_stands h
    have about : d = refusal expected l.token name := by
      rw [hq'] at registered
      rcases List.mem_append.1 registered with old | new
      · rw [stands.lexical d old] at syntactic
        cases syntactic
      · exact List.mem_singleton.1 new
    have taken : (lexemes text name).take q'.taken = before ++ [l] := by
      rw [hq', register, split, stands.take_taken]
    refine ⟨l.token, expected, hq' ▸ stands.current, about, exists_endsAt taken, ?_⟩
    intro e ends visible followed text' agree
    have more : ∀ m ∈ (lexemes text name).take q'.taken, m.token.kind ≠ .endOfFile := by
      rw [taken]
      refine List.forall_mem_append.2 ⟨fun m hm ended => ?_, by simpa using visible⟩
      have passed := stands.passed m hm
      rw [ended] at passed
      rcases passed with comment | passes
      · cases comment
      · cases passes
    obtain ⟨q'', rejected, same⟩ := parse_begun h (ends.begun followed agree more)
    exact ⟨cause, q'', rfl, rejected, same⟩

/-- That the `&` is faulty, and so reported twice, is known by the blank after it. -/
theorem local_rejection_ampersand :
    let text := "class A & b"
    let text' := "class A & #"
    let c : Token := ⟨.error, "&", 1⟩
    let d : Diagnostic :=
      ⟨.syntactic, "Expected '\x7b' before class body, found '&'", some 1, some "a"⟩
    let q := stateOf (Source.ofText text "a").parse
    d ∈ q.diagnostics ∧ d.kind = .syntactic ∧ q.current = some c ∧ c.kind ≠ .endOfFile ∧
      EndsAt text "a" q.taken c 9 ∧ 9 < (normalize text.toList).length ∧
      (normalize text'.toList).take 10 = (normalize text.toList).take 10 ∧
      ∃ cause q', (Source.ofText text "a").parse = .error cause q ∧
        (Source.ofText text' "a").parse = .error cause q' ∧ q'.diagnostics = q.diagnostics := by
  intro text text' c d q
  have registered : d ∈ q.diagnostics := by decide +kernel
  have current : q.current = some c := by decide +kernel
  have ends : EndsAt text "a" q.taken c 9 := by
    refine ⟨[[], [' '], [' ']], [⟨.classWord, "class", 1⟩, ⟨.identifier, "A", 1⟩],
      by decide +kernel, rfl, by simp, by decide +kernel, ?_⟩
    intro i gap t hg ht
    match i with
    | 0 | 1 | 2 =>
      simp only [List.cons_append, List.nil_append, List.getElem?_cons_zero,
        List.getElem?_cons_succ, Option.some.injEq] at hg ht
      rw [← hg, ← ht]
      rfl
    | i + 3 => cases hg
  have followed : 9 < (normalize text.toList).length := by decide +kernel
  have agree : (normalize text'.toList).take 10 = (normalize text.toList).take 10 := by
    decide +kernel
  obtain ⟨_, _, here, -, -, reports⟩ := local_rejection registered rfl
  obtain rfl : c = _ := Option.some.inj (current.symm.trans here)
  exact ⟨registered, rfl, current, by decide, ends, followed, agree,
    reports 9 ends (by decide) followed text' agree⟩

end Grammar
end BantamSyntax
