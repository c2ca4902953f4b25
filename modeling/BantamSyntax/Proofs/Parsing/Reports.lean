import BantamSyntax.Proofs.Parsing.Acceptance
import BantamSyntax.Proofs.Parsing.Lockstep
import BantamSyntax.Proofs.Parsing.TwinRules

/-!
# Reports

What a parse of a text reports: nothing, or one syntax error, before which there is a lexical error
just if it is the faulty token itself that was not expected.
-/
namespace BantamSyntax

open BantamSyntax.Parser

theorem significant_append (ls ms : List Lexeme) :
    significant (ls ++ ms) = significant ls ++ significant ms := by
  simp [significant]

/-! ## complete texts -/

namespace Complete

variable {before rest ls : List Lexeme} {l : Lexeme}

theorem fault_iff (h : Complete ls) (hl : l ∈ ls) :
    l.fault.isSome ↔ l.token.kind = .error := by
  induction h with
  | ending last clean =>
    rw [List.mem_singleton.1 hl, clean, last]
    decide
  | cons _ fault _ _ ih =>
    rcases List.mem_cons.1 hl with rfl | hl
    · exact fault
    · exact ih hl

theorem ended (h : Complete (before ++ l :: rest)) : l.token.kind = .endOfFile ↔ rest = [] := by
  induction before with
  | nil =>
    cases h with
    | ending last => exact iff_of_true last rfl
    | cons more _ _ more' => exact iff_of_false more (by rintro rfl; cases more')
  | cons m before ih =>
    generalize hs : before ++ l :: rest = ls at h
    rw [List.cons_append, hs] at h
    cases h with
    | ending => simp at hs
    | cons _ _ _ h =>
      subst hs
      exact ih h

theorem diagnostic?_eq_none (h : Complete ls) (hl : l ∈ ls) (sound : l.token.kind ≠ .error)
    (file : String) : l.diagnostic? file = none := by
  exact Lexeme.diagnostic?_of_sound
    (Option.not_isSome_iff_eq_none.1 ((h.fault_iff hl).not.2 sound)) file

theorem exists_diagnostic (h : Complete ls) (hl : l ∈ ls) (faulty : l.token.kind = .error)
    (file : String) : ∃ d, l.diagnostic? file = some d ∧ d.kind = .lexical ∧
      d.line = some l.token.line ∧ d.file = some file := by
  obtain ⟨fault, hf⟩ := Option.isSome_iff_exists.1 ((h.fault_iff hl).2 faulty)
  exact ⟨_, Lexeme.diagnostic?_of_fault hf file, rfl, rfl, rfl⟩

end Complete

namespace Parser

variable {file : String} {p q : Parser} {ts : List Token} {before rest ls : List Lexeme}
  {l : Lexeme}

/-! ## places in texts -/

/-- The parser stands at a lexeme of a text, of which it has passed over those before it. -/
structure StandsAt (file : String) (before : List Lexeme) (l : Lexeme) (rest : List Lexeme)
    (p : Parser) : Prop where
  name : p.file = file
  current : p.current = some l.token
  taken : p.taken = before.length + 1
  passed : ∀ m ∈ before, m.token.kind = .comment ∨ passes m.token.kind = true
  diagnostics : p.diagnostics = (before ++ [l]).filterMap (·.diagnostic? file)
  feed : rest ≠ [] → p.feed.toList = rest.map .ok

/-- Going on in a text takes the lexemes up to the first that is no comment. -/
theorem advance_text (feed : p.feed.toList = ls.map .ok) (h : advance p = .ok () q) :
    ∃ comments l rest, ls = comments ++ l :: rest ∧ (∀ c ∈ comments, c.token.kind = .comment) ∧
      q = p.requested (comments.length + 1) ∧
      p.feed.lexemes (comments.length + 1) = comments ++ [l] ∧
      (rest ≠ [] → q.feed.toList = rest.map .ok) := by
  have advanced := advance_advanced p
  rw [h] at advanced
  cases advanced with
  | @token comments l ss given passed last =>
    obtain ⟨comments', rest', rfl, hc, hr⟩ := List.map_eq_append_iff.1 (feed.symm.trans given)
    obtain rfl : comments' = comments :=
      List.map_injective_iff.2 (fun _ _ h => by injection h) hc
    obtain ⟨l', rest, rfl, hl, rfl⟩ := List.map_eq_cons_iff.1 hr
    obtain rfl : l' = l := by injection hl
    refine ⟨comments', l', rest, rfl, passed, rfl, Feed.lexemes_given given, fun more => ?_⟩
    have given' : p.feed.toList = (comments' ++ [l']).map .ok ++ rest.map .ok := by simp [given]
    have left := Feed.after_toList given' (by simpa using more)
    rwa [List.length_map, List.length_append] at left

theorem StandsAt.first (name : p.file = file) (feed : p.feed.toList = ls.map .ok)
    (silent : p.diagnostics = []) (untaken : p.taken = 0) (h : advance p = .ok () q) :
    ∃ before l rest, ls = before ++ l :: rest ∧ q.StandsAt file before l rest := by
  obtain ⟨comments, l, rest, rfl, passed, rfl, given, left⟩ := advance_text feed h
  refine ⟨comments, l, rest, rfl, name, ?_, ?_, fun m hm => .inl (passed m hm), ?_, left⟩
  · simp [requested, given]
  · simp [requested, untaken]
  · simp only [requested, given, silent, name, List.nil_append]

theorem StandsAt.next (h : p.StandsAt file before l rest) (more : rest ≠ [])
    (goes : p.Goes passes q) :
    ∃ comments m rest', rest = comments ++ m :: rest' ∧
      q.StandsAt file (before ++ l :: comments) m rest' := by
  obtain ⟨comments, m, rest', rfl, passed, rfl, given, left⟩ :=
    advance_text (h.feed more) goes.advanced
  have leaves : passes l.token.kind = true := by simpa [h.current] using goes.leaves
  refine ⟨comments, m, rest', rfl, h.name, ?_, ?_, ?_, ?_, left⟩
  · simp [requested, given]
  · simp [requested, h.taken]
    omega
  · intro k hk
    rcases List.mem_append.1 hk with hk | hk
    · exact h.passed k hk
    rcases List.mem_cons.1 hk with rfl | hk
    · exact .inr leaves
    · exact .inl (passed k hk)
  · rw [show before ++ l :: comments ++ [m] = (before ++ [l]) ++ (comments ++ [m]) by simp,
      List.filterMap_append, ← h.diagnostics]
    simp only [requested, given, h.name]

/-- A parser that goes on in a text stays in it. -/
theorem StandsAt.moves (complete : Complete (before ++ l :: rest))
    (h : p.StandsAt file before l rest) (moves : p.Moves passes q) :
    ∃ before' m rest', before ++ l :: rest = before' ++ m :: rest' ∧
      q.StandsAt file before' m rest' := by
  induction moves with
  | refl => exact ⟨before, l, rest, rfl, h⟩
  | tail _ step ih =>
    obtain ⟨before', m, rest', split, now⟩ := ih
    have leaves : passes m.token.kind = true := by simpa [now.current] using step.leaves
    have more : rest' ≠ [] := by
      intro none
      rw [(Complete.ended (split ▸ complete)).2 none] at leaves
      cases leaves
    obtain ⟨comments, k, rest'', rfl, next⟩ := now.next more step
    exact ⟨_, k, rest'', by rw [split]; simp, next⟩

theorem StandsAt.noted {entries : List Entry} (h : p.StandsAt file before l rest) :
    StandsAt file before l rest { p with journal := entries } :=
  ⟨h.name, h.current, h.taken, h.passed, h.diagnostics, h.feed⟩

/-- Of the lexemes before the one that a parser stands at none is faulty. -/
theorem StandsAt.sound_before (h : p.StandsAt file before l rest) :
    ∀ m ∈ before, m.token.kind ≠ .error := by
  intro m hm error
  have passed := h.passed m hm
  rw [error] at passed
  rcases passed with hk | hk <;> cases hk

theorem StandsAt.faults_before (complete : Complete (before ++ l :: rest))
    (h : p.StandsAt file before l rest) : before.filterMap (·.diagnostic? file) = [] :=
  List.filterMap_eq_nil_iff.2 fun m hm =>
    complete.diagnostic?_eq_none (by simp [hm]) (h.sound_before m hm) file

theorem StandsAt.silent (complete : Complete (before ++ l :: rest))
    (h : p.StandsAt file before l rest) (sound : l.token.kind ≠ .error) : p.diagnostics = [] := by
  rw [h.diagnostics, List.filterMap_append, h.faults_before complete,
    List.filterMap_cons_none (complete.diagnostic?_eq_none (by simp) sound file)]
  rfl

/-- A parser that stands at a faulty lexeme has reported what is wrong with it. -/
theorem StandsAt.faulted (complete : Complete (before ++ l :: rest))
    (h : p.StandsAt file before l rest) (faulty : l.token.kind = .error) :
    ∃ d, p.diagnostics = [d] ∧
      ((before ++ l :: rest).filterMap (·.diagnostic? file)).head? = some d ∧
      d.kind = .lexical ∧ d.line = some l.token.line ∧ d.file = some file := by
  obtain ⟨d, hd, about⟩ := complete.exists_diagnostic (by simp) faulty file
  refine ⟨d, ?_, ?_, about⟩
  · rw [h.diagnostics, List.filterMap_append, h.faults_before complete, List.filterMap_cons_some hd]
    rfl
  · rw [List.filterMap_append, h.faults_before complete, List.filterMap_cons_some hd]
    rfl

theorem refusal_faulty {expected : Expected} {t : Token} (faulty : t.kind = .error) :
    refusal expected t file = ⟨.syntactic,
      (expected.message ++ ", found ") ++ "'" ++ t.spelling ++ "'", some t.line, some file⟩ := by
  rw [refusal, found, if_neg (by simp [faulty])]
  simp only [String.append_assoc]

theorem StandsAt.passes_before (h : p.StandsAt file before l rest) :
    ∀ t ∈ significant before, passes t.kind = true := by
  intro t ht
  obtain ⟨mem, kept⟩ := List.mem_filter.1 ht
  obtain ⟨m, hm, rfl⟩ := List.mem_map.1 mem
  exact (h.passed m hm).resolve_left (by simpa using kept)

theorem StandsAt.lexical (h : p.StandsAt file before l rest) :
    ∀ d ∈ p.diagnostics, d.kind = .lexical := by
  rw [h.diagnostics]
  intro d hd
  obtain ⟨m, -, hm⟩ := List.mem_filterMap.1 hd
  obtain ⟨fault, -, rfl⟩ := Option.map_eq_some_iff.1 hm
  rfl

theorem StandsAt.take_taken (h : p.StandsAt file before l rest) :
    (before ++ l :: rest).take p.taken = before ++ [l] := by
  rw [h.taken, List.append_cons before l rest]
  exact List.take_left' (by simp)

/-- A parser in a text sees the rest of it. -/
theorem StandsAt.sees_rest (complete : Complete (before ++ l :: rest))
    (h : p.StandsAt file before l rest) (seen : p.Sees file ts) :
    ts = l.token :: significant rest := by
  cases seen with
  | @ending u _ current last =>
    obtain rfl : l.token = u := Option.some.inj (h.current.symm.trans current)
    rw [complete.ended.1 last]
    rfl
  | @token u ls _ current more _ _ feed =>
    obtain rfl : l.token = u := Option.some.inj (h.current.symm.trans current)
    have left := h.feed (complete.ended.not.1 more)
    rw [List.map_injective_iff.2 (fun _ _ h => by injection h) (left.symm.trans feed)]

end Parser

/-! ## parses -/

namespace Grammar

variable {file : String} {p : Parser} {t : Token} {ts : List Token} {ls : List Lexeme}

theorem broad_passes : Broad passes :=
  fun _ h => h

theorem program_ends (p : Parser) : p.Ends passes (withSteps program p) :=
  Twins.ends (program_twins broad_passes (Nat.le_refl _)) p

/-- Either all tokens are taken but the one at the end of the text, or one is rejected. -/
theorem parseRest_outcome (h : p.Sees file (t :: ts)) :
    (∃ r q last, parseRest p = .ok r { q with
        journal := q.journal ++ [.parsed q.file r.classes.length] } ∧
      p.Moves passes q ∧ q.Sees file [last] ∧ last.kind = .endOfFile) ∨
    ∃ expected c q, withSteps program p = rejection expected c q ∧ p.Moves passes q ∧
      q.current = some c := by
  have ends := program_ends p
  obtain ⟨o, ho, hP⟩ := @program_reads file ts t (p.feed.length + 2) h.length_le
  cases o with
  | none =>
    obtain ⟨d, q, hq⟩ := ho p h
    have hq : withSteps program p = .error (.rejected (some d)) q := hq
    obtain ⟨expected, c, r, hr, moves, current⟩ := ends.of_rejected hq
    exact .inr ⟨expected, c, r, hr, moves, current⟩
  | some o =>
    obtain ⟨r, us⟩ := o
    obtain ⟨w, hw, derived, settled, last, vs, rfl, ended⟩ := hP r us rfl
    obtain ⟨q, hq, sees⟩ := ho p h
    have hq : withSteps program p = .ok r q := hq
    rw [hq] at ends
    obtain rfl := sees.eq_nil ended
    refine .inl ⟨r, q, last, ?_, ?_, sees, ended⟩
    · refine bind_eq_ok.2 ⟨r, q, hq, bind_eq_ok.2 ⟨q, q, rfl, ?_⟩⟩
      rw [if_pos (sees.clean (by rw [ended]; decide))]
      rfl
    · cases ends
      assumption

/-- The lexemes of a text, also those that the grammar is not about. -/
def lexemes (text name : String) : List Lexeme :=
  (Scanner.ofSource (.ofText text name)).tokenize.1.lexemes

theorem lexemes_eq (text name : String) :
    lexemes text name = Scanner.lexemesFrom 1 (' ' :: normalize text.toList) := by
  rw [lexemes, Scanner.tokenize_faces (Scanner.ofSource_faces (Source.ofText_gives text name))]

theorem lexemes_complete (text name : String) : Complete (lexemes text name) :=
  lexemes_eq text name ▸ Scanner.lexemesFrom_complete 1 _

/-- The name of a text has no part in its tokens. -/
theorem tokens_eq_significant (text name : String) :
    tokens text = significant (lexemes text name) := by
  rw [lexemes_eq, ← lexemes_eq text Source.anonymous]
  rfl

theorem feed_ofText (text name : String) :
    (Scanner.ofSource (.ofText text name)).feed.toList = (lexemes text name).map .ok :=
  have faces := Scanner.ofSource_faces (Source.ofText_gives text name)
  lexemes_eq text name ▸ Scanner.feed_faces faces

/-- The parser of a text comes to see its tokens, and stands at the first of them. -/
theorem parse_begins (text name : String) : ∃ p before l rest,
    (Source.ofText text name).parse = parseRest p ∧ p.Sees name (tokens text) ∧
      lexemes text name = before ++ l :: rest ∧ p.StandsAt name before l rest := by
  let started : Parser := { Parser.ofScanner (.ofSource (.ofText text name)) with
    journal := [.parsing name] }
  have feed : started.feed.toList = (lexemes text name).map .ok := feed_ofText text name
  obtain ⟨p, hp, sees⟩ := advance_sees (p := started) rfl rfl feed (lexemes_complete text name)
  obtain ⟨before, l, rest, split, stands⟩ := StandsAt.first (p := started) rfl feed rfl rfl hp
  rw [← tokens_eq_significant] at sees
  exact ⟨p, before, l, rest, bind_of_ok (f := fun _ => parseRest) hp, sees, split, stands⟩

/-- A parse of a text comes to the end of it, or rejects the lexeme that it stands at. -/
theorem parse_outcome (text name : String) : ∃ p : Parser,
    (Source.ofText text name).parse = parseRest p ∧ p.Sees name (tokens text) ∧
    ((∃ r q before l, parseRest p = .ok r q ∧ lexemes text name = before ++ [l] ∧
        q.StandsAt name before l []) ∨
      ∃ expected q before l rest, withSteps program p = rejection expected l.token q ∧
        lexemes text name = before ++ l :: rest ∧ q.StandsAt name before l rest ∧
        p.Moves passes q) := by
  obtain ⟨p, before, l, rest, hp, sees, split, stands⟩ := parse_begins text name
  refine ⟨p, hp, sees, ?_⟩
  have complete := lexemes_complete text name
  obtain ⟨t, ts, hts⟩ := List.exists_cons_of_ne_nil sees.ne_nil
  rw [hts] at sees
  rw [split] at complete
  rcases parseRest_outcome sees with ⟨r, q, last, hr, moves, seen, ended⟩ |
    ⟨expected, c, q, hr, moves, current⟩
  · obtain ⟨before', m, rest', split', now⟩ := stands.moves complete moves
    rw [split'] at complete split
    have here : m.token = last := Option.some.inj (now.current.symm.trans seen.current_eq)
    obtain rfl := complete.ended.1 (here ▸ ended)
    exact .inl ⟨r, _, before', m, hr, split, now.noted⟩
  · obtain ⟨before', m, rest', split', now⟩ := stands.moves complete moves
    have here : m.token = c := Option.some.inj (now.current.symm.trans current)
    exact .inr ⟨expected, q, before', m, rest', here ▸ hr, split.trans split', now, moves⟩

/-- A parse of a text reports nothing, and then there is no faulty token in the text; or it reports
one syntax error, at a token with no faulty one before it. If that token is faulty itself, what is
wrong with it is reported first. -/
theorem parse_reports (text name : String) :
    let faults := (lexemes text name).filterMap (·.diagnostic? name)
    match (Source.ofText text name).parse with
    | .ok _ q => q.diagnostics = [] ∧ faults = [] ∧
      ∀ l ∈ lexemes text name, l.token.kind ≠ .error
    | .error cause q => cause = .rejected q.diagnostics.head? ∧
      ∃ before l rest, lexemes text name = before ++ l :: rest ∧
        q.current = some l.token ∧ q.taken = before.length + 1 ∧
        (∀ m ∈ before, m.token.kind ≠ .error) ∧
        (l.token.kind ≠ .error ∧ (∃ message,
            q.diagnostics = [⟨.syntactic, message, some l.token.line, some name⟩]) ∨
          l.token.kind = .error ∧ ∃ d message, faults.head? = some d ∧ d.kind = .lexical ∧
            d.line = some l.token.line ∧ d.file = some name ∧
            q.diagnostics = [d, ⟨.syntactic, message ++ "'" ++ l.token.spelling ++ "'",
              some l.token.line, some name⟩]) := by
  have complete := lexemes_complete text name
  obtain ⟨p, hp, -, outcome⟩ := parse_outcome text name
  rcases outcome with ⟨r, q, before, l, hq, split, stands⟩ |
    ⟨expected, q, before, l, rest, hq, split, stands, -⟩
  · rw [hp, hq, split]
    rw [split] at complete
    have sound : ∀ m ∈ before ++ [l], m.token.kind ≠ .error := by
      have ended : l.token.kind = .endOfFile := complete.ended.2 rfl
      refine List.forall_mem_append.2 ⟨stands.sound_before, ?_⟩
      simp [ended]
    have silent := stands.silent complete (sound l (by simp))
    exact ⟨silent, stands.diagnostics.symm.trans silent, sound⟩
  · have rejected : parseRest p = rejection expected l.token q := bind_of_error hq
    rw [hp, rejected, split]
    rw [split] at complete
    refine ⟨rfl, before, l, rest, rfl, stands.current, stands.taken, stands.sound_before, ?_⟩
    rw [register, stands.name]
    by_cases faulty : l.token.kind = .error
    · obtain ⟨d, hd, first, lexical, line, file⟩ := stands.faulted complete faulty
      refine .inr ⟨faulty, d, expected.message ++ ", found ", first, lexical, line, file, ?_⟩
      rw [hd, refusal_faulty faulty]
      rfl
    · refine .inl ⟨faulty, expected.message ++ ", found " ++ found l.token, ?_⟩
      rw [stands.silent complete faulty]
      rfl

end Grammar
end BantamSyntax
