import BantamSyntax.Proofs.Parsing.Framing
import BantamSyntax.Proofs.Scanning.Interruptions

/-!
# Parses of any source

A parse of a source, whichever of its reads fail, has steps enough and comes to one of three things:
a program, a rejection with a diagnostic, or the failure of a read, after which nothing is reported.
-/
namespace BantamSyntax

open BantamSyntax.Parser

/-- Some call for a character fails so. -/
def Source.Fails (s : Source) (cause : InputFailure) : Prop :=
  ∃ n t, (s.skip n).next = .error cause t

/-! ## feeds -/

namespace Scanner

/-- Each scan is a lexeme of some text or a failure of the source. -/
def Traced (source : Source) : Scan → Prop
  | .ok l => Lexical l
  | .error cause => source.Fails cause

theorem Passes.traced {s t : Scanner} {cs : List Char} {x : Scan} (h : s.Passes cs t)
    (traced : Traced t.source x) : Traced s.source x := by
  cases x with
  | ok l => exact traced
  | error cause =>
    obtain ⟨m, left, -⟩ := h.calls
    obtain ⟨n, u, failed⟩ := traced
    exact ⟨m + n, u, by rwa [Source.skip_add, ← left]⟩

theorem Feeds.traced {s : Scanner} {xs : List Scan} (h : s.Feeds xs) :
    ∀ x ∈ xs, Traced s.source x := by
  induction h with
  | ending h =>
    obtain ⟨gap, gives⟩ := scan_gives h
    exact List.forall_mem_singleton.2 gives.lexical
  | lexeme h _ _ ih =>
    obtain ⟨gap, gives⟩ := scan_gives h
    exact List.forall_mem_cons.2 ⟨gives.lexical, fun x hx => gives.passes.traced (ih x hx)⟩
  | stuck h => exact List.forall_mem_singleton.2 (proceeds_scan.error h).failed
  | failure h _ ih =>
    obtain ⟨cs, passes⟩ := (proceeds_scan.error h).passes
    exact List.forall_mem_cons.2
      ⟨(proceeds_scan.error h).failed, fun x hx => passes.traced (ih x hx)⟩

theorem Lexical.genuine {l : Lexeme} (h : Lexical l) : l.token.Genuine := by
  rcases h with ⟨n, rfl⟩ | ⟨c, cs, n, rfl⟩
  · exact Token.genuine_of_kind rfl
  · exact cut_genuine c cs n

/-- Up to the first failure the scans are lexemes of a text that the end of it may complete. -/
theorem Feeds.complete {s : Scanner} {xs : List Scan} (h : s.Feeds xs) :
    (∃ ls, xs = ls.map .ok ∧ Complete ls) ∨ ∃ ls cause rest,
      xs = ls.map .ok ++ .error cause :: rest ∧ Complete (ls ++ [Scanner.ending 0]) := by
  have short (cause : InputFailure) (rest : List Scan) : ∃ ls cause' rest',
      (.error cause :: rest : List Scan) = ls.map .ok ++ .error cause' :: rest' ∧
        Complete (ls ++ [Scanner.ending 0]) :=
    ⟨[], cause, rest, rfl, .ending rfl rfl⟩
  induction h with
  | @ending s t l h last =>
    obtain ⟨gap, gives⟩ := scan_gives h
    exact .inl ⟨[l], rfl, .ending last (gives.lexical.sound (by simp [last]))⟩
  | lexeme h more _ ih =>
    obtain ⟨gap, gives⟩ := scan_gives h
    have first {ls : List Lexeme} (complete : Complete ls) :=
      Complete.cons more gives.lexical.faulty_iff gives.lexical.genuine complete
    rcases ih with ⟨ls, rfl, complete⟩ | ⟨ls, cause, rest, rfl, complete⟩
    · exact .inl ⟨_ :: ls, rfl, first complete⟩
    · exact .inr ⟨_ :: ls, cause, rest, rfl, first complete⟩
  | stuck => exact .inr (short _ _)
  | failure => exact .inr (short _ _)

end Scanner

/-! ## steps -/

namespace Parser

variable {may : TokenKind → Bool} {α β : Type} {R : α → β → Prop} {o o' : Option Token}
  {x : ParserM α} {y : ParserM β} {p q r : Parser} {e l : Lexeme} {ss : List Scan}

theorem advance_cons (feed : p.feed.toList = .ok l :: ss) (more : ss ≠ []) :
    advance p =
      if l.token.kind = .comment then advance (p.accept l) else .ok () (p.accept l) := by
  obtain ⟨next, rest, rfl⟩ := List.exists_cons_of_ne_nil more
  obtain ⟨first, left⟩ := List.cons.inj feed
  have later : (p.accept l).feed = ⟨next, rest⟩ := by simp [accept, Feed.next, left]
  show advanceOver p.feed.first p.feed.rest p =
    if l.token.kind = .comment then
      advanceOver (p.accept l).feed.first (p.accept l).feed.rest (p.accept l)
    else .ok () (p.accept l)
  rw [first, left, later, advanceOver]

theorem advance_failure {cause : InputFailure} (feed : p.feed.toList = .error cause :: ss) :
    ∃ r, advance p = .error (.input cause) r := by
  obtain ⟨first, left⟩ := List.cons.inj feed
  refine ⟨{ p with feed := p.feed.next, taken := p.taken + 1 }, ?_⟩
  show advanceOver p.feed.first p.feed.rest p = _
  rw [first, left]
  cases ss <;> rfl

/-- The parsers look at the same, and the first comes to `e` where the second comes to a failure. -/
structure Completes (e : Lexeme) (p q : Parser) : Prop where
  current : p.current = q.current
  feeds : ∃ ls cause rest, p.feed.toList = (ls ++ [e]).map .ok ∧
    q.feed.toList = ls.map .ok ++ .error cause :: rest

theorem Completes.length_le (h : Completes e p q) : p.feed.length ≤ q.feed.length := by
  obtain ⟨ls, cause, rest, hp, hq⟩ := h.feeds
  simp [Feed.length, hp, hq]

theorem advance_completes (h : Completes e p q) :
    (∃ cause r, advance q = .error (.input cause) r) ∨
      ∃ p' q', advance p = .ok () p' ∧ advance q = .ok () q' ∧ Completes e p' q' := by
  obtain ⟨-, ls, cause, rest, hp, hq⟩ := h
  induction ls generalizing p q with
  | nil => exact .inl ⟨cause, advance_failure hq⟩
  | cons l ls ih =>
    have laterp : (p.accept l).feed.toList = (ls ++ [e]).map .ok := next_toList hp (by simp)
    have laterq : (q.accept l).feed.toList = ls.map .ok ++ .error cause :: rest :=
      next_toList hq (by simp)
    rw [advance_cons hp (by simp), advance_cons hq (by simp)]
    split
    · exact ih laterp laterq
    · exact .inr ⟨_, _, rfl, rfl, rfl, ls, cause, rest, laterp, laterq⟩

theorem error_ne_stuck {failure : ParseFailure} (h : failure ≠ .stuck) :
    ∀ r, (.error failure q : EStateM.Result ParseFailure Parser α) ≠ .error .stuck r := by
  intro r stuck
  injection stuck with same
  exact h same

/-- A rule that has steps enough for a feed that is complete has enough for one that fails. -/
theorem Twin.alive (h : Twin Eq may R o o' x y) (start : p.current = o) (start' : q.current = o')
    (completes : Completes e p q) (alive : ∀ r, x p ≠ .error .stuck r) :
    ∀ r, y q ≠ .error .stuck r := by
  induction h generalizing p q with
  | done => exact fun _ => pure_ne_error
  | unprimed =>
    rw [bind_of_error (token_unprimed start')]
    exact error_ne_stuck (by decide)
  | look _ ih =>
    rw [bind_of_ok (token_eq start)] at alive
    rw [bind_of_ok (token_eq start')]
    exact ih start start' completes alive
  | move _ _ ih =>
    rcases advance_completes completes with ⟨cause, r, failed⟩ | ⟨p', q', hp, hq, completes⟩
    · rw [bind_of_error failed]
      exact error_ne_stuck (by simp)
    · obtain ⟨t, ht⟩ := current_of_advance hp
      rw [bind_of_ok hp] at alive
      rw [bind_of_ok hq]
      exact ih t t ⟨rfl, rfl, rfl⟩ ht (completes.current.symm.trans ht) completes alive
  | file _ ih =>
    rw [bind_of_ok (show (get : ParserM Parser) p = .ok p p from rfl)] at alive
    rw [bind_of_ok (show (get : ParserM Parser) q = .ok q q from rfl)]
    exact ih p.file q.file start start' completes alive
  | fail =>
    cases ht : q.current with
    | none =>
      rw [Parser.fail, bind_of_error (token_unprimed ht)]
      exact error_ne_stuck (by decide)
    | some t =>
      rw [fail_eq ht]
      exact error_ne_stuck (by simp)
  | stuck => exact absurd rfl (alive p)

theorem Moves.current (h : p.Moves may q) (looks : p.current.isSome) : q.current.isSome := by
  cases h with
  | refl => exact looks
  | tail _ step =>
    obtain ⟨t, ht⟩ := current_of_advance step.advanced
    rw [ht]
    rfl

/-! ## faults -/

theorem Feed.next_subset (f : Feed) : ∀ x ∈ f.next.toList, x ∈ f.toList := by
  obtain ⟨first, rest⟩ := f
  cases rest with
  | nil => exact fun _ hx => hx
  | cons next rest => exact fun _ hx => List.mem_cons_of_mem _ hx

theorem Feed.after_subset (n : Nat) (f : Feed) : ∀ x ∈ (f.after n).toList, x ∈ f.toList := by
  induction n generalizing f with
  | zero => exact fun _ hx => hx
  | succ n ih => exact fun x hx => next_subset f x (ih f.next x hx)

variable {source : Source} {ds : List Diagnostic}

/-- Of what the parser has taken only the current token can have been reported. -/
structure Tidy (source : Source) (ds : List Diagnostic) (p : Parser) : Prop where
  traced : ∀ x ∈ p.feed.toList, Scanner.Traced source x
  silent : p.current.all (fun t => t.kind ≠ .error) = true → p.diagnostics = ds

/-- Going on leaves the parser tidy, or fails as the source does and reports nothing. -/
theorem Tidy.advanced (h : p.Tidy source ds)
    (leaves : p.current.all (fun t => passes t.kind) = true) :
    match advance p with
    | .ok _ q => q.Tidy source ds
    | .error failure q =>
      (∃ cause, failure = .input cause ∧ source.Fails cause) ∧ q.diagnostics = ds := by
  have silent : p.diagnostics = ds := by
    refine h.silent ?_
    cases ht : p.current with
    | none => rfl
    | some t =>
      rw [ht] at leaves
      simp only [passes, Option.all_some, Bool.and_eq_true] at leaves ⊢
      exact leaves.2
  have passed {comments : List Lexeme} {rest : List Scan}
      (feed : p.feed.toList = comments.map .ok ++ rest)
      (passed : ∀ c ∈ comments, c.token.kind = .comment) :
      comments.filterMap (·.diagnostic? p.file) = [] := by
    refine List.filterMap_eq_nil_iff.2 fun c hc => ?_
    have lexical : Scanner.Lexical c := h.traced (.ok c) (by simp [feed, hc])
    exact Lexeme.diagnostic?_of_sound (lexical.sound (by simp [passed c hc])) p.file
  have advanced := advance_advanced p
  generalize advance p = result at advanced
  cases advanced with
  | @token comments l rest feed comment =>
    have lexical : Scanner.Lexical l := h.traced (.ok l) (by simp [feed])
    refine ⟨fun x hx => h.traced x (Feed.after_subset _ _ x hx), fun sound => ?_⟩
    have given := Feed.lexemes_given feed
    have sound : l.token.kind ≠ .error := by simpa [requested, given] using sound
    simp only [requested, given, List.filterMap_append, passed feed comment, silent,
      List.filterMap_cons_none (Lexeme.diagnostic?_of_sound (lexical.sound sound) p.file),
      List.filterMap_nil,
      List.append_nil]
  | @failure comments cause rest feed comment =>
    have failed : source.Fails cause := h.traced (.error cause) (by simp [feed])
    refine ⟨⟨cause, rfl, failed⟩, ?_⟩
    simp only [requested, Feed.lexemes_failed feed, passed feed comment, silent, List.append_nil]

theorem Tidy.moves (h : p.Tidy source ds) (moves : p.Moves passes q) : q.Tidy source ds := by
  induction moves with
  | refl => exact h
  | tail _ step ih =>
    have advanced := ih.advanced step.leaves
    rwa [step.advanced] at advanced

end Parser

/-! ## parses -/

namespace Grammar

variable {p q : Parser} {t : Token} {ts : List Token} {file : String} {n : Nat}

theorem program_alive (h : p.Sees file (t :: ts)) (enough : (t :: ts).length ≤ n) :
    ∀ r, program n p ≠ .error .stuck r := by
  obtain ⟨o, ho, -⟩ := @program_reads file ts t n enough
  cases o with
  | none =>
    obtain ⟨d, q, hq⟩ := ho p h
    rw [hq]
    exact error_ne_stuck (by simp)
  | some o =>
    obtain ⟨q, hq, -⟩ := ho p h
    rw [hq]
    intro r stuck
    cases stuck

/-- A parse has steps enough for whatever a scanner may give. -/
theorem rules_alive {s : Scanner} (silent : p.diagnostics = []) (feeds : s.Feeds p.feed.toList) :
    ∀ r, rules p ≠ .error .stuck r := by
  rcases feeds.complete with ⟨ls, feed, complete⟩ | ⟨ls, cause, rest, feed, complete⟩
  · obtain ⟨q, hq, sees⟩ := advance_sees rfl silent feed complete
    obtain ⟨t, ts, hts⟩ := List.exists_cons_of_ne_nil sees.ne_nil
    rw [hts] at sees
    rw [rules, bind_of_ok hq]
    exact program_alive sees sees.length_le
  · -- The feed that ends where this one fails is that of a text, so there a program has its steps.
    obtain ⟨first, more, hf⟩ := List.exists_cons_of_ne_nil
      (show (ls ++ [Scanner.ending 0]).map Except.ok ≠ ([] : List Scan) by simp)
    let whole : Parser := { p with feed := ⟨first, more⟩ }
    have completes : Completes (Scanner.ending 0) whole p := ⟨rfl, ls, cause, rest, hf.symm, feed⟩
    rcases advance_completes completes with ⟨cause, r, failed⟩ | ⟨p', q', hp, hq, completes⟩
    · rw [rules, bind_of_error failed]
      exact error_ne_stuck (by simp)
    · obtain ⟨p₁, hp₁, sees⟩ := advance_sees (p := whole) rfl silent hf.symm complete
      obtain rfl : p₁ = p' := by
        rw [hp] at hp₁
        injection hp₁ with _ same
        exact same.symm
      obtain ⟨t, ts, hts⟩ := List.exists_cons_of_ne_nil sees.ne_nil
      rw [hts] at sees
      have twins : Twins Eq passes (Program.Alike Eq) (program (p₁.feed.length + 2))
          (program (q'.feed.length + 2)) :=
        program_twins broad_passes (Nat.add_le_add_right completes.length_le 2)
      rw [rules, bind_of_ok hq]
      exact (twins _ _ (alike_self _)).alive sees.current_eq
        (completes.current.symm.trans sees.current_eq)
        completes (program_alive sees sees.length_le)

/-- The rules of a parse come to a program, to a rejection, or to a failure of the source. -/
theorem rules_outcome {s : Scanner} (none : p.current = none) (silent : p.diagnostics = [])
    (feeds : s.Feeds p.feed.toList) :
    (∃ r q, rules p = .ok r q) ∨
    (∃ d ds q, rules p = .error (.rejected (some d)) q ∧ q.diagnostics = d :: ds) ∨
    ∃ cause q, rules p = .error (.input cause) q ∧ q.diagnostics = [] ∧ s.source.Fails cause := by
  have alive := rules_alive silent feeds
  have tidy : p.Tidy s.source [] := ⟨feeds.traced, fun _ => silent⟩
  have advanced := tidy.advanced (by rw [none]; rfl)
  cases hp : Parser.advance p with
  | error failure q =>
    rw [hp] at advanced
    obtain ⟨⟨cause, rfl, fails⟩, left⟩ := advanced
    exact .inr (.inr ⟨cause, q, by rw [rules, bind_of_error hp], left, fails⟩)
  | ok _ q =>
    rw [hp] at advanced
    rw [rules, bind_of_ok hp] at alive ⊢
    have ends := program_ends q
    generalize withSteps program q = result at alive ends
    cases ends with
    | result => exact .inl ⟨_, _, rfl⟩
    | input moves leaves failed =>
      have left := (Tidy.moves advanced moves).advanced leaves
      rw [failed] at left
      obtain ⟨⟨cause, same, fails⟩, left⟩ := left
      cases same
      exact .inr (.inr ⟨_, _, rfl, left, fails⟩)
    | @rejected q t expected moves current =>
      obtain ⟨d, ds, hd⟩ := List.exists_cons_of_ne_nil
        (show (q.register (refusal expected t q.file)).diagnostics ≠ [] by simp [register])
      exact .inr (.inl ⟨d, ds, _, by rw [rejection, hd]; rfl, hd⟩)
    | unprimed moves none =>
      obtain ⟨t, ht⟩ := current_of_advance hp
      have looks := moves.current (by rw [ht]; rfl)
      rw [none] at looks
      cases looks
    | stuck => exact absurd rfl (alive _)

end Grammar

/-! ## sources -/

namespace Source

open Grammar

/-- A parse comes to a program and reports nothing, or to a rejection that tells the first of what
it has reported, or to a failure of the source, when it has reported nothing. -/
theorem parse_outcome (s : Source) :
    (∃ r, outcome s.parse = (.ok r, [])) ∨
    (∃ d ds, outcome s.parse = (.error (.rejected (some d)), d :: ds)) ∨
    ∃ cause, outcome s.parse = (.error (.input cause), []) ∧ s.Fails cause := by
  have ends := rules_outcome (p := begun (.ofScanner (.ofSource s))) rfl rfl
    (Scanner.ofSource s).feeds_feed
  rw [Source.parse, parse_eq_rules]
  rcases ends with ⟨r, q, hq⟩ | ⟨d, ds, q, hq, left⟩ | ⟨cause, q, hq, left, fails⟩
  · rw [bind_of_ok hq, outcome_settle]
    cases hd : q.diagnostics with
    | nil => exact .inl ⟨r, rfl⟩
    | cons d ds => exact .inr (.inl ⟨d, ds, rfl⟩)
  · rw [bind_of_error hq, outcome, left]
    exact .inr (.inl ⟨d, ds, rfl⟩)
  · rw [bind_of_error hq, outcome, left]
    exact .inr (.inr ⟨cause, rfl, fails⟩)

theorem parse_alive (s : Source) : ∀ r, s.parse ≠ .error .stuck r := by
  intro r stuck
  have seen : outcome s.parse = (.error .stuck, r.diagnostics) := by rw [stuck]; rfl
  rcases parse_outcome s with ⟨r, h⟩ | ⟨d, ds, h⟩ | ⟨cause, h, -⟩
  all_goals
    rw [h] at seen
    cases seen

end Source

/-- The parser as it turns to another source: it keeps its current token, what has been reported to
it and its journal. -/
def Parser.turnTo (p : Parser) (s : Source) : Parser :=
  { p with file := s.name, feed := (Scanner.ofSource s).feed, taken := 0 }

/-- A parser that is used again does as a new one does behind the diagnostics that it holds. -/
theorem Grammar.outcome_turnTo (p : Parser) (s : Source) :
    outcome (parse (p.turnTo s)) = following p.diagnostics (outcome s.parse) :=
  have held : (p.turnTo s).diagnostics = p.diagnostics ++ [] := (List.append_nil _).symm
  outcome_parse_following (p := .ofScanner (.ofSource s)) rfl rfl rfl held s.parse_alive

theorem Source.parse_following (s : Source) (ds : List Diagnostic) :
    Grammar.outcome (s.parse ds) = Grammar.following ds (Grammar.outcome s.parse) :=
  Grammar.outcome_turnTo (.ofScanner (.ofSource s) ds) s

end BantamSyntax
