import BantamSyntax.Proofs.Parsing.Reports
import BantamSyntax.Proofs.Parsing.ViableRules
import BantamSyntax.Proofs.Printing.Spellings

/-!
# Earliest rejections

A syntax error is reported at the first token that no program has in its place: the tokens before it
begin a program, and with it they begin none.
-/
namespace BantamSyntax

open BantamSyntax.Parser

/-! ## tokens of the same symbols -/

/-- Any line may stand for any other. -/
def anyLine (_ _ : Int) : Prop :=
  True

theorem anyLine_total (l : Int) : ∃ l', anyLine l l' :=
  ⟨l, trivial⟩

theorem alike_of_symbols {ts us : List Token} (h : ts.map Token.symbol = us.map Token.symbol) :
    List.Forall₂ (Token.Alike anyLine) ts us := by
  rw [← List.forall₂_eq_eq_eq, List.forall₂_map_left_iff, List.forall₂_map_right_iff] at h
  exact h.imp fun t u same => ⟨congrArg Prod.fst same, congrArg Prod.snd same, trivial⟩

namespace Grammar

variable {file file' text name : String} {p q p' : Parser} {t c c' : Token}
  {ts us w w' zs zs' : List Token} {expected : Expected} {n n' : Nat} {r : Program}

/-- What one parser accepts, another accepts that sees the same symbols. -/
theorem program_accepted (seen : p.Sees file ts) (seen' : p'.Sees file' us) (hn : n ≤ n')
    (same : ts.map Token.symbol = us.map Token.symbol) (h : program n p = .ok r q) :
    ∃ r' q', program n' p' = .ok r' q' := by
  have alike := alike_of_symbols same
  obtain ⟨t, ts, rfl⟩ := List.exists_cons_of_ne_nil seen.ne_nil
  obtain ⟨u, us, rfl⟩ := List.exists_cons_of_ne_nil seen'.ne_nil
  cases alike with
  | cons first rest =>
    have steps := (program_twins broad_passes hn).lockstep anyLine_total first seen seen'
    obtain ⟨r', q', h', -⟩ := steps.result_right h (.cons first rest)
    exact ⟨r', q', h'⟩

/-- What one parser rejects, another rejects that sees the same symbols up to that token. -/
theorem program_rejected (seen : p.Sees file (w ++ c :: zs))
    (seen' : p'.Sees file' (w' ++ c' :: zs')) (hn : n ≤ n')
    (same : (w ++ [c]).map Token.symbol = (w' ++ [c']).map Token.symbol)
    (h : program n p = rejection expected c q) (there : q.Sees file (c :: zs)) :
    ∃ expected' q', program n' p' = rejection expected' c' q' ∧ q'.current = some c' ∧
      expected'.message = expected.message := by
  have alike := alike_of_symbols same
  obtain ⟨t, ts, ht⟩ := List.exists_cons_of_ne_nil seen.ne_nil
  obtain ⟨u, us, hu⟩ := List.exists_cons_of_ne_nil seen'.ne_nil
  have first := first_alike alike ht.symm hu.symm
  rw [ht] at seen
  rw [hu] at seen'
  have steps := (program_twins broad_passes hn).lockstep anyLine_total first seen seen'
  obtain ⟨expected', q', h', there', message⟩ :=
    steps.rejected_right h there ht.symm hu.symm alike
  exact ⟨expected', q', h', there'.current_eq, message⟩

/-! ## accepted texts -/

/-- A text is accepted just if the rule for programs accepts its tokens. -/
theorem parseText_iff_program (text : String) : ∃ p : Parser,
    p.Sees Source.anonymous (tokens text) ∧
      ((∃ r, parseText text = .ok r) ↔ ∃ r q, program (p.feed.length + 2) p = .ok r q) := by
  obtain ⟨p, t, ts, -, -, htokens, -, -, sees, hp⟩ := parse_text text
  refine ⟨p, htokens ▸ sees, ?_⟩
  rcases parseRest_outcome sees with ⟨r, q, last, hr, -, -, -⟩ | ⟨expected, c, q, hr, -, -⟩
  · refine iff_of_true ⟨r, by rw [parseText, hp, hr]⟩ ?_
    obtain ⟨r', q', h, -⟩ := bind_eq_ok.1 hr
    exact ⟨r', q', h⟩
  · refine iff_of_false ?_ ?_
    · rintro ⟨r, h⟩
      rw [parseText, hp, parseRest, bind_of_error hr] at h
      cases h
    · rintro ⟨r, q', h⟩
      have hr : program (p.feed.length + 2) p = rejection expected c q := hr
      rw [h] at hr
      cases hr

/-- There is a parser before the tokens of any lexemes. -/
theorem exists_sees {ls : List Lexeme} (file : String) (complete : Complete ls) :
    ∃ p : Parser, p.Sees file (significant ls) := by
  obtain ⟨l, ls, rfl⟩ := List.exists_cons_of_ne_nil
    (show ls ≠ [] by rintro rfl; cases complete)
  obtain ⟨p, -, sees⟩ := advance_sees
    (p := { file, feed := ⟨.ok l, ls.map .ok⟩ }) rfl rfl rfl complete
  exact ⟨p, sees⟩

theorem complete_writable (h : ∀ t ∈ w, t.Writable) :
    ∃ ls, Complete ls ∧ significant ls = w ++ [(Scanner.ending 0).token] := by
  induction w with
  | nil => exact ⟨[Scanner.ending 0], .ending rfl rfl, rfl⟩
  | cons t w ih =>
    rw [List.forall_mem_cons] at h
    obtain ⟨ls, complete, hls⟩ := ih h.2
    have kinds := h.1.sound
    simp only [List.mem_cons, not_or] at kinds
    refine ⟨⟨t, none⟩ :: ls, .cons kinds.2.2.1 (by simp [kinds.2.1]) h.1.genuine complete, ?_⟩
    rw [significant_cons kinds.1, hls]
    rfl

theorem IsProgram.on_line {line : Int} (h : IsProgram file line w r) (line' : Int) :
    ∃ r', IsProgram file line' w r' := by
  cases h with
  | intro classes => exact ⟨_, .intro classes⟩

/-- Tokens that are derived as a program are accepted as one when they are written out. -/
theorem IsProgram.accepted {line : Int} (derived : IsProgram file line w r)
    (writable : ∀ t ∈ w, t.Writable) : ∃ r', parseText (spellOut w) = .ok r' := by
  obtain ⟨ls, complete, hls⟩ := complete_writable writable
  obtain ⟨p, sees⟩ := exists_sees file complete
  rw [hls] at sees
  obtain ⟨p', sees', accepts⟩ := parseText_iff_program (spellOut w)
  have same : (w ++ [(Scanner.ending 0).token]).map Token.symbol =
      (tokens (spellOut w)).map Token.symbol := by
    rw [tokens_spellOut writable, List.map_append]
    rfl
  have steps : (w ++ [(Scanner.ending 0).token]).length ≤ p'.feed.length + 2 := by
    have count := congrArg List.length same
    rw [List.length_map, List.length_map] at count
    exact count ▸ sees'.length_le
  -- The line that the program starts on is that of the first token that the parser sees.
  have heads : ∃ first, (w ++ [(Scanner.ending 0).token]).head?.map Token.line = some first := by
    cases w <;> exact ⟨_, rfl⟩
  obtain ⟨first, hfirst⟩ := heads
  obtain ⟨r', derived⟩ := derived.on_line first
  obtain ⟨r', derived, settled⟩ := derived.settle
  obtain ⟨q, hq, -⟩ := derived.runs settled rfl steps hfirst p sees
  exact accepts.2 (program_accepted sees sees' (Nat.le_refl _) same hq)

/-! ## completed texts -/

theorem writable_of_completing (h : t.symbol ∈ Symbol.completing) : t.Writable := by
  have known : ∀ s ∈ Symbol.completing, (s.1.isFree = true ∨ s ∈ Symbol.fixed) ∧
      s.1 ∉ [TokenKind.comment, .error, .endOfFile] ∧ (s.1 = .identifier → isName s.2 = true) ∧
      constantKind? s.1 = none := by decide
  obtain ⟨tabled, sound, name, constant⟩ := known _ h
  exact ⟨tabled, ⟨name, fun k hk => absurd (constant.symm.trans hk) (by simp)⟩, sound⟩

theorem significant_of_mem_tokens (h : t ∈ tokens text) : t.kind ≠ .comment := by
  simpa using (List.mem_filter.1 h).2

theorem writable_of_mem_tokens (h : t ∈ tokens text) (passed : passes t.kind = true) :
    t.Writable := by
  refine ⟨tabled_tokens h, spelled_tokens h, ?_⟩
  have significant := significant_of_mem_tokens h
  simpa [significant, passes, and_comm] using passed

/-! ## rejected texts -/

/-- How a text comes to be rejected: `p` is its parser before the first token, `q` at the one that
was not expected. -/
structure RejectedAt (text name : String) (w : List Token) (c : Token) (us : List Token)
    (expected : Expected) (p q : Parser) : Prop where
  split : tokens text = w ++ c :: us
  passed : ∀ t ∈ w, passes t.kind = true
  start : p.Sees name (w ++ c :: us)
  there : q.Sees name (c :: us)
  rejected : program (p.feed.length + 2) p = rejection expected c q

theorem RejectedAt.kept (h : RejectedAt text name w c us expected p q) : c.kind ≠ .comment := by
  have mem : c ∈ tokens text := by simp [h.split]
  exact significant_of_mem_tokens mem

/-- A parse that fails stands at a lexeme of the text, whose token it rejects. -/
theorem parse_stands {cause : ParseFailure} {q' : Parser}
    (h : (Source.ofText text name).parse = .error cause q') :
    ∃ before l rest expected p q, lexemes text name = before ++ l :: rest ∧
      q.StandsAt name before l rest ∧
      RejectedAt text name (significant before) l.token (significant rest) expected p q ∧
      cause = .rejected q'.diagnostics.head? ∧ q' = q.register (refusal expected l.token name) := by
  have complete := lexemes_complete text name
  have all := tokens_eq_significant text name
  obtain ⟨p, hp, sees, outcome⟩ := parse_outcome text name
  rw [hp] at h
  rcases outcome with ⟨r, q, before, l, hr, -⟩ |
    ⟨expected, q, before, l, rest, hr, split, stands, moves⟩
  · rw [hr] at h
    cases h
  obtain ⟨rfl, rfl⟩ := EStateM.Result.error.inj ((bind_of_error hr).symm.trans h)
  obtain ⟨w, us, hw, there⟩ := moves.sees sees
  rw [split] at complete
  obtain rfl := stands.sees_rest complete there
  have mem : l.token ∈ tokens text := by simp [hw]
  have kept := significant_of_mem_tokens mem
  obtain rfl : w = significant before := by
    rw [hw, split, significant_append, significant_cons kept] at all
    exact List.append_cancel_right all
  exact ⟨before, l, rest, expected, p, q, split, stands,
    ⟨hw, stands.passes_before, hw ▸ sees, there, hr⟩, rfl, by rw [stands.name]⟩

theorem parse_rejected {cause : ParseFailure} {q' : Parser}
    (h : (Source.ofText text name).parse = .error cause q') :
    ∃ w c us expected p q, RejectedAt text name w c us expected p q ∧
      significant ((lexemes text name).take q'.taken) = w ++ [c] ∧
      q' = q.register (refusal expected c name) ∧ ∀ d ∈ q.diagnostics, d.kind = .lexical := by
  obtain ⟨before, l, rest, expected, p, q, split, stands, rejected, -, rfl⟩ := parse_stands h
  refine ⟨_, l.token, _, expected, p, q, rejected, ?_, rfl, stands.lexical⟩
  rw [register, split, stands.take_taken, significant_append, significant_cons rejected.kept]
  rfl

/-- What stands before a rejected token begins an accepted text. -/
theorem RejectedAt.begins (h : RejectedAt text name w c us expected p q) :
    ∃ text' r, parseText text' = .ok r ∧
      w.map Token.symbol <+: (tokens text').map Token.symbol := by
  have sees := h.start
  obtain ⟨t, ts, hts⟩ := List.exists_cons_of_ne_nil sees.ne_nil
  rw [hts] at sees
  obtain ⟨w', us', q', hw', there', current, feed, v, _, completing, r, derived⟩ :=
    (program_viable name 0 _ t).rejected sees h.rejected
  obtain rfl := there'.unique h.there current feed
  obtain rfl : w' = w := List.append_cancel_right (hw'.symm.trans hts.symm)
  have writable : ∀ t ∈ w' ++ v, t.Writable := by
    refine List.forall_mem_append.2 ⟨fun t ht => ?_, fun t ht => ?_⟩
    · exact writable_of_mem_tokens (h.split ▸ List.mem_append_left _ ht) (h.passed t ht)
    · exact writable_of_completing (completing t ht)
  obtain ⟨r', accepted⟩ := derived.accepted writable
  refine ⟨spellOut (w' ++ v), r', accepted, ?_⟩
  rw [tokens_spellOut writable, List.map_append, List.append_assoc]
  exact List.prefix_append ..

/-- No parser accepts that sees the same symbols up to the rejected token. -/
theorem RejectedAt.not_accepted (h : RejectedAt text name w c us expected p q)
    (sees : p'.Sees file (w' ++ c' :: zs'))
    (same : (w ++ [c]).map Token.symbol = (w' ++ [c']).map Token.symbol) :
    program n p' ≠ .ok r q' := by
  intro accepted
  -- Both runs are compared with one that has the steps of either.
  have steps := Nat.le_max_left (p.feed.length + 2) n
  have steps' := Nat.le_max_right (p.feed.length + 2) n
  obtain ⟨_, _, ok⟩ := program_accepted sees sees steps' rfl accepted
  obtain ⟨_, _, no, -⟩ := program_rejected h.start sees steps same h.rejected h.there
  cases ok.symm.trans no

/-- No accepted text begins with a rejected token and what stands before it. -/
theorem RejectedAt.hopeless (h : RejectedAt text name w c us expected p q) :
    ¬ ∃ text' r, parseText text' = .ok r ∧
      (w ++ [c]).map Token.symbol <+: (tokens text').map Token.symbol := by
  rintro ⟨text', r, accepted, z, hz⟩
  obtain ⟨p', sees, accepts⟩ := parseText_iff_program text'
  obtain ⟨r, q', ok⟩ := accepts.1 ⟨r, accepted⟩
  obtain ⟨ws, zs', hws, same, -⟩ := List.map_eq_append_iff.1 hz.symm
  obtain ⟨w', u, rfl, -, hu⟩ := List.map_eq_append_iff.1 (same.trans List.map_append)
  obtain ⟨c', rfl, -⟩ := List.map_eq_singleton_iff.1 hu
  rw [hws, List.append_assoc] at sees
  exact h.not_accepted sees same.symm ok

/-- No program has the token after those before it, which do begin one. The last condition says so
of the end of a text: the tokens before it are no program. -/
structure Earliest (before : List Token) (c : Token) : Prop where
  begun : ∃ text r, parseText text = .ok r ∧
    before.map Token.symbol <+: (tokens text).map Token.symbol
  hopeless : ¬ ∃ text r, parseText text = .ok r ∧
    (before ++ [c]).map Token.symbol <+: (tokens text).map Token.symbol
  unended : c.kind = .endOfFile → ¬ ∃ text r, parseText text = .ok r ∧
    (tokens text).dropLast.map Token.symbol = before.map Token.symbol

/-- A text that ends after some tokens begins with these and the end of any text. -/
theorem prefix_of_dropLast (hc : c ∈ tokens text) (ended : c.kind = .endOfFile) {text' : String}
    (same : (tokens text').dropLast.map Token.symbol = w.map Token.symbol) :
    (w ++ [c]).map Token.symbol <+: (tokens text').map Token.symbol := by
  obtain ⟨_, t, ts, v, last, htokens, hv, ended', -⟩ := parse_text text'
  have split : tokens text' = v ++ [last] := htokens.trans hv
  have ending' := @symbol_ending text' last (by simp [split]) ended'
  rw [split, List.dropLast_concat] at same
  have whole : (tokens text').map Token.symbol = (w ++ [c]).map Token.symbol := by
    rw [split, List.map_append, List.map_append, same, List.map_singleton, List.map_singleton,
      symbol_ending hc ended, ending']
  exact whole ▸ List.prefix_rfl

/-- A syntax error is about the first token that no program has in its place: the tokens before it
can be completed to a program, but not those up to it. -/
theorem earliest_rejection {text name : String} {d : Diagnostic}
    (registered : d ∈ (stateOf (Source.ofText text name).parse).diagnostics)
    (syntactic : d.kind = .syntactic) :
    let q := stateOf (Source.ofText text name).parse
    ∃ before c after expected, tokens text = before ++ c :: after ∧
      significant ((lexemes text name).take q.taken) = before ++ [c] ∧
      q.current = some c ∧ d = refusal expected c name ∧ Earliest before c := by
  cases h : (Source.ofText text name).parse with
  | ok r q =>
    obtain ⟨p, -, -, -, hp, -⟩ := parse_begins text name
    rw [h, stateOf_ok, parseRest_clean (hp.symm.trans h)] at registered
    cases registered
  | error cause q' =>
    rw [h, stateOf_error] at registered
    obtain ⟨w, c, us, expected, p, q, rejected, taken, rfl, lexical⟩ := parse_rejected h
    have about : d = refusal expected c name := by
      rcases List.mem_append.1 registered with old | new
      · rw [lexical d old] at syntactic
        cases syntactic
      · exact List.mem_singleton.1 new
    refine ⟨w, c, us, expected, rejected.split, taken, rejected.there.current_eq, about,
      rejected.begins, rejected.hopeless, ?_⟩
    have mem : c ∈ tokens text := by simp [rejected.split]
    rintro ended ⟨text', r, accepted, same⟩
    exact rejected.hopeless ⟨text', r, accepted, prefix_of_dropLast mem ended same⟩

/-- The target of an assignment may not be in parentheses. That is known no sooner than at the `=`,
since the parentheses and what they hold are an expression. -/
theorem earliest_rejection_parenthesized_target :
    let text := "class A \x7b int f() \x7b (a) = 1; \x7d \x7d"
    let d : Diagnostic := ⟨.syntactic,
      "Invalid assignment target: a variable is required, found '='", some 1, some "<stream>"⟩
    let q := stateOf (Source.ofText text "<stream>").parse
    d ∈ q.diagnostics ∧ d.kind = .syntactic ∧
      ∃ before c after expected, tokens text = before ++ c :: after ∧
        significant ((lexemes text "<stream>").take q.taken) = before ++ [c] ∧
        q.current = some c ∧ d = refusal expected c "<stream>" ∧ Earliest before c := by
  intro text d q
  have registered : d ∈ q.diagnostics := by decide +kernel
  exact ⟨registered, rfl, earliest_rejection registered rfl⟩

end Grammar
end BantamSyntax
