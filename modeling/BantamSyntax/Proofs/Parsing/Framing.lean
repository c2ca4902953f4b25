import BantamSyntax.Proofs.Parsing.Reports

/-!
# Older diagnostics

A rule takes no notice of what had been reported before it began, nor of the journal. It does the
same behind any diagnostics, except that a rejection tells the first of all there are.
-/
namespace BantamSyntax
namespace Parser

variable {may : TokenKind → Bool} {α : Type} {R : α → α → Prop} {o o' : Option Token}
  {x y : ParserM α} {p q : Parser} {ds : List Diagnostic} {t : Token}

/-! ## parsers -/

/-- The second parser stands where the first one does, with `ds` before its diagnostics. -/
structure Behind (ds : List Diagnostic) (p q : Parser) : Prop where
  file : q.file = p.file
  feed : q.feed = p.feed
  current : q.current = p.current
  taken : q.taken = p.taken
  diagnostics : q.diagnostics = ds ++ p.diagnostics

theorem Behind.accept (h : Behind ds p q) (l : Lexeme) : Behind ds (p.accept l) (q.accept l) where
  file := h.file
  feed := congrArg Feed.next h.feed
  current := rfl
  taken := congrArg (· + 1) h.taken
  diagnostics := by simp [Parser.accept, h.diagnostics, h.file]

theorem Behind.refused (h : Behind ds p q) :
    Behind ds { p with feed := p.feed.next, taken := p.taken + 1 }
      { q with feed := q.feed.next, taken := q.taken + 1 } where
  file := h.file
  feed := congrArg Feed.next h.feed
  current := h.current
  taken := congrArg (· + 1) h.taken
  diagnostics := h.diagnostics

theorem Behind.register (h : Behind ds p q) (d : Diagnostic) :
    Behind ds (p.register d) (q.register d) where
  file := h.file
  feed := h.feed
  current := h.current
  taken := h.taken
  diagnostics := by simp [Parser.register, h.diagnostics]

/-! ## outcomes -/

/-- Both runs come to the same, and leave their parsers so that one is behind the other. Of a run
that gets stuck no more is said. -/
inductive Along (ds : List Diagnostic) {α : Type} : EStateM.Result ParseFailure Parser α →
    EStateM.Result ParseFailure Parser α → Prop where
  | result {a : α} {p q : Parser} (h : Behind ds p q) : Along ds (.ok a p) (.ok a q)
  | input {cause : InputFailure} {p q : Parser} (h : Behind ds p q) :
      Along ds (.error (.input cause) p) (.error (.input cause) q)
  | rejected {p q : Parser} (h : Behind ds p q) :
      Along ds (.error (.rejected p.diagnostics.head?) p) (.error (.rejected q.diagnostics.head?) q)
  | unprimed {p q : Parser} (h : Behind ds p q) :
      Along ds (.error .unprimed p) (.error .unprimed q)
  | stuck {p : Parser} {r : EStateM.Result ParseFailure Parser α} : Along ds (.error .stuck p) r

theorem Along.bind {β : Type} {x y : ParserM β} {f g : β → ParserM α} (h : Along ds (x p) (y q))
    (hf : ∀ b p' q', x p = .ok b p' → Behind ds p' q' → Along ds (f b p') (g b q')) :
    Along ds ((x >>= f) p) ((y >>= g) q) := by
  generalize hp : x p = r, hq : y q = r' at h
  cases h with
  | result behind =>
    rw [bind_of_ok hp, bind_of_ok hq]
    exact hf _ _ _ hp behind
  | input behind =>
    rw [bind_of_error hp, bind_of_error hq]
    exact .input behind
  | rejected behind =>
    rw [bind_of_error hp, bind_of_error hq]
    exact .rejected behind
  | unprimed behind =>
    rw [bind_of_error hp, bind_of_error hq]
    exact .unprimed behind
  | stuck =>
    rw [bind_of_error hp]
    exact .stuck

theorem advanceOver_along (h : Behind ds p q) (first : Scan) (rest : List Scan) :
    Along ds (advanceOver first rest p) (advanceOver first rest q) := by
  induction rest generalizing first p q with
  | nil =>
    cases first with
    | error cause => exact .input h.refused
    | ok l => exact .result (h.accept l)
  | cons next rest ih =>
    cases first with
    | error cause => exact .input h.refused
    | ok l =>
      rw [advanceOver, advanceOver]
      split
      · exact ih (h.accept l) next
      · exact .result (h.accept l)

theorem advance_along (h : Behind ds p q) : Along ds (advance p) (advance q) := by
  show Along ds (advanceOver p.feed.first p.feed.rest p) (advanceOver q.feed.first q.feed.rest q)
  rw [h.feed]
  exact advanceOver_along h _ _

theorem rejection_along {expected : Expected} (h : Behind ds p q) (t : Token) :
    Along ds (rejection expected t p : EStateM.Result ParseFailure Parser α)
      (rejection expected t q) := by
  rw [rejection, rejection, h.file]
  exact .rejected (h.register _)

theorem token_along (h : Behind ds p q) : Along ds (token p) (token q) := by
  cases ht : p.current with
  | none =>
    rw [token_unprimed ht, token_unprimed (h.current.trans ht)]
    exact .unprimed h
  | some t =>
    rw [token_eq ht, token_eq (h.current.trans ht)]
    exact .result h

/-- Rules that are twins and do the same here do the same behind other diagnostics. -/
theorem Twin.along (h : Twin Eq may R o o' x y) (start : p.current = o) (start' : p.current = o')
    (same : x p = y p) (behind : Behind ds p q) : Along ds (x p) (y q) := by
  -- The results of twins are only alike. That the rules do the same here makes them equal.
  induction h generalizing p q with
  | done =>
    cases same
    exact .result behind
  | unprimed =>
    refine (token_along behind).bind fun t p' q' hp _ => ?_
    rw [token_unprimed start] at hp
    cases hp
  | look _ ih =>
    rw [bind_of_ok (token_eq start), bind_of_ok (token_eq start')] at same
    rw [bind_of_ok (token_eq start), bind_of_ok (token_eq (behind.current.trans start'))]
    exact ih start start' same behind
  | move _ _ ih =>
    refine (advance_along behind).bind fun _ p' q' hp behind => ?_
    obtain ⟨t, ht⟩ := current_of_advance hp
    rw [bind_of_ok hp, bind_of_ok hp] at same
    exact ih t t ⟨rfl, rfl, rfl⟩ ht ht same behind
  | @file _ _ f g _ ih =>
    have gp : (get : ParserM Parser) p = .ok p p := rfl
    have gq : (get : ParserM Parser) q = .ok q q := rfl
    rw [bind_of_ok gp, bind_of_ok gp] at same
    rw [bind_of_ok gp, bind_of_ok gq, behind.file]
    exact ih p.file p.file start start' same behind
  | fail =>
    cases ht : p.current with
    | none =>
      rw [Parser.fail, bind_of_error (token_unprimed ht),
        bind_of_error (token_unprimed (behind.current.trans ht))]
      exact .unprimed behind
    | some t =>
      rw [fail_eq ht, fail_eq (behind.current.trans ht)]
      exact rejection_along behind t
  | stuck => exact .stuck

theorem Twins.along (h : Twins Eq may R x x) (behind : Behind ds p q) :
    Along ds (x p) (x q) :=
  (h _ _ (alike_self _)).along rfl rfl rfl behind

end Parser

/-! ## parses -/

namespace Grammar

open BantamSyntax.Parser

variable {p q : Parser} {ds : List Diagnostic}

/-- What is to be seen of a parse: its result, or what it failed by, and the diagnostics then. -/
def outcome : EStateM.Result ParseFailure Parser Program →
    Except ParseFailure Program × List Diagnostic
  | .ok r p => (.ok r, p.diagnostics)
  | .error e p => (.error e, p.diagnostics)

theorem snd_outcome (result : EStateM.Result ParseFailure Parser Program) :
    (outcome result).2 = (stateOf result).diagnostics := by
  cases result <;> rfl

/-- What a parse comes to if `ds` have been reported before it. -/
def following (ds : List Diagnostic) (alone : Except ParseFailure Program × List Diagnostic) :
    Except ParseFailure Program × List Diagnostic :=
  let all := ds ++ alone.2
  (match alone.1 with
    | .ok r => if all = [] then .ok r else .error (.rejected all.head?)
    | .error (.rejected _) => .error (.rejected all.head?)
    | .error e => .error e, all)

/-- The end of a parse, which refuses a program if there are diagnostics. -/
def settle (r : Program) : ParserM Program := do
  let p ← get
  if p.diagnostics = [] then
    note (.parsed p.file r.classes.length)
    return r
  else throw (.rejected p.diagnostics.head?)

/-- The rules of a parse, from the first token on. -/
def rules : ParserM Program := do
  Parser.advance
  withSteps program

/-- The parser as a parse begins, whatever its current token was. -/
def begun (p : Parser) : Parser :=
  { p with current := none, journal := p.journal ++ [.parsing p.file] }

theorem parse_eq_rules (p : Parser) : parse p = (rules >>= settle) (begun p) := by
  rw [rules, bind_assoc]
  rfl

theorem outcome_settle (r : Program) (p : Parser) : outcome (settle r p) =
    (if p.diagnostics = [] then .ok r else .error (.rejected p.diagnostics.head?),
      p.diagnostics) := by
  have gets : (get : ParserM Parser) p = .ok p p := rfl
  rw [settle, bind_of_ok gets]
  split <;> rfl

/-- A parse takes from its parser the diagnostics, of which it makes nothing but to refuse. -/
theorem outcome_parse_following (file : q.file = p.file) (feed : q.feed = p.feed)
    (taken : q.taken = p.taken) (diagnostics : q.diagnostics = ds ++ p.diagnostics)
    (alive : ∀ r, parse p ≠ .error .stuck r) :
    outcome (parse q) = following ds (outcome (parse p)) := by
  have behind : Behind ds (begun p) (begun q) := ⟨file, feed, rfl, taken, diagnostics⟩
  have along : Along ds (rules (begun p)) (rules (begun q)) := by
    refine (advance_along behind).bind fun _ p' q' _ behind => ?_
    have steps : withSteps program q' = program (p'.feed.length + 2) q' := by
      rw [← behind.feed]
      rfl
    rw [steps]
    exact (program_twins broad_passes (Nat.le_refl _)).along behind
  rw [parse_eq_rules p] at alive ⊢
  rw [parse_eq_rules q]
  generalize hp : rules (begun p) = a, hq : rules (begun q) = b at along
  cases along with
  | @result r p' q' behind =>
    rw [bind_of_ok hp, bind_of_ok hq, outcome_settle, outcome_settle, following, behind.diagnostics]
    by_cases silent : p'.diagnostics = []
    · simp only [silent, if_true]
    · have loud : ds ++ p'.diagnostics ≠ [] := by simp [silent]
      simp only [silent, loud, if_false]
  | input behind =>
    rw [bind_of_error hp, bind_of_error hq]
    simp only [outcome, following, behind.diagnostics]
  | rejected behind =>
    rw [bind_of_error hp, bind_of_error hq]
    simp only [outcome, following, behind.diagnostics]
  | unprimed behind =>
    rw [bind_of_error hp, bind_of_error hq]
    simp only [outcome, following, behind.diagnostics]
  | stuck => exact absurd (bind_of_error hp) (alive _)

end Grammar
end BantamSyntax
