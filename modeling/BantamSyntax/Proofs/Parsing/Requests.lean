import BantamSyntax.Proofs.Parsing.Running
import Mathlib.Logic.Relation

/-!
# Requests

What a rule can do to a parser, whatever the parser holds and also where the input fails: it goes on
from token to token, and may then report that the current one is not what was expected.
-/
namespace BantamSyntax

/-- The state that is left, whatever an action came to. -/
def stateOf {ε σ α : Type} : EStateM.Result ε σ α → σ
  | .ok _ s => s
  | .error _ s => s

@[simp] theorem stateOf_ok {ε σ α : Type} {a : α} {s : σ} :
    stateOf (.ok a s : EStateM.Result ε σ α) = s := rfl

@[simp] theorem stateOf_error {ε σ α : Type} {e : ε} {s : σ} :
    stateOf (.error e s : EStateM.Result ε σ α) = s := rfl

/-- What leads from state to state leads through a sequence of two actions if it does through
each. -/
theorem stateOf_bind {ε σ α β : Type} {R : σ → σ → Prop} {x : EStateM ε σ α}
    {f : α → EStateM ε σ β} {s : σ} (trans : ∀ {t u : σ}, R s t → R t u → R s u)
    (hx : R s (stateOf (x s))) (hf : ∀ a t, R t (stateOf (f a t))) :
    R s (stateOf ((x >>= f) s)) := by
  cases h : x s with
  | ok a t =>
    rw [h] at hx
    rw [bind_of_ok h]
    exact trans hx (hf a t)
  | error e t =>
    rw [h] at hx
    rwa [bind_of_error h]

/-! ## feeds -/

namespace Feed

/-- The feed after `n` requests. -/
def after : Nat → Feed → Feed
  | 0, f => f
  | n + 1, f => after n f.next

/-- The lexemes that come of `n` requests; one that fails gives none. -/
def lexemes : Nat → Feed → List Lexeme
  | 0, _ => []
  | n + 1, f => f.first.toOption.toList ++ lexemes n f.next

variable {f : Feed} {ss rest : List Scan} {ls : List Lexeme}

theorem after_add (m n : Nat) (f : Feed) : f.after (m + n) = (f.after m).after n := by
  induction m generalizing f with
  | zero => rw [Nat.zero_add, after]
  | succ m ih => rw [Nat.succ_add, after, after, ih]

theorem lexemes_add (m n : Nat) (f : Feed) :
    f.lexemes (m + n) = f.lexemes m ++ (f.after m).lexemes n := by
  induction m generalizing f with
  | zero => rw [Nat.zero_add, after, lexemes, List.nil_append]
  | succ m ih => rw [Nat.succ_add, lexemes, lexemes, after, ih, List.append_assoc]

theorem after_toList (h : f.toList = ss ++ rest) (ne : rest ≠ []) :
    (f.after ss.length).toList = rest := by
  induction ss generalizing f with
  | nil => exact h
  | cons s ss ih => exact ih (Parser.next_toList h (by simp [ne]))

theorem lexemes_eq (h : f.toList = ss ++ rest) :
    f.lexemes ss.length = ss.filterMap Except.toOption := by
  induction ss generalizing f with
  | nil => rfl
  | cons s ss ih =>
    have first : f.first = s := (List.cons.inj h).1
    rw [List.length_cons, lexemes, first]
    have later : f.next.lexemes ss.length = ss.filterMap Except.toOption := by
      cases ss with
      | nil => rfl
      | cons s' ss => exact ih (Parser.next_toList h (by simp))
    rw [later]
    cases s <;> rfl

theorem filterMap_toOption (ls : List Lexeme) :
    (ls.map Except.ok : List Scan).filterMap Except.toOption = ls := by
  rw [List.filterMap_map]
  exact List.filterMap_some

theorem lexemes_given {l : Lexeme} (h : f.toList = ls.map .ok ++ .ok l :: rest) :
    f.lexemes (ls.length + 1) = ls ++ [l] := by
  have h : f.toList = (ls ++ [l]).map .ok ++ rest := by simp [h]
  have given := lexemes_eq h
  rwa [filterMap_toOption, List.length_map, List.length_append] at given

theorem lexemes_failed {cause : InputFailure} (h : f.toList = ls.map .ok ++ .error cause :: rest) :
    f.lexemes (ls.length + 1) = ls := by
  have h : f.toList = (ls.map .ok ++ [.error cause]) ++ rest := by simp [h]
  have given := lexemes_eq h
  rw [List.filterMap_append, filterMap_toOption, List.length_append, List.length_map] at given
  exact given.trans (List.append_nil ls)

end Feed

namespace Parser

variable {may : TokenKind → Bool} {p q r : Parser} {t : Token} {n : Nat} {d : Diagnostic}

/-! ## parsers -/

/-- What `n` requests make of a parser. -/
def requested (n : Nat) (p : Parser) : Parser :=
  let ls := p.feed.lexemes n
  { p with
    feed := p.feed.after n
    current := (ls.getLast?.map (·.token)).or p.current
    diagnostics := p.diagnostics ++ ls.filterMap (·.diagnostic? p.file)
    journal := p.journal ++ ls.flatMap (·.entries p.file)
    taken := p.taken + n }

/-- The parser with one more diagnostic. -/
def register (p : Parser) (d : Diagnostic) : Parser :=
  { p with diagnostics := p.diagnostics ++ [d], journal := p.journal ++ [.registered d] }

/-- That the token is not what was expected. -/
def refusal (expected : Expected) (t : Token) (file : String) : Diagnostic :=
  ⟨.syntactic, expected.message ++ ", found " ++ found t, some t.line, some file⟩

/-- What a rule comes to that does not find what it expected. -/
def rejection {α : Type} (expected : Expected) (t : Token) (p : Parser) :
    EStateM.Result ParseFailure Parser α :=
  .error (.rejected (p.register (refusal expected t p.file)).diagnostics.head?)
    (p.register (refusal expected t p.file))

theorem requested_add (m n : Nat) (p : Parser) :
    p.requested (m + n) = (p.requested m).requested n := by
  simp [requested, Feed.lexemes_add, Feed.after_add, List.getLast?_append, Nat.add_assoc,
    Option.map_or, Option.or_assoc]

theorem accept_eq {l : Lexeme} (h : p.feed.first = .ok l) : p.accept l = p.requested 1 := by
  have one : p.feed.lexemes 1 = [l] := by simp [Feed.lexemes, h, Except.toOption]
  have found : [l].filterMap (·.diagnostic? p.file) = (l.diagnostic? p.file).toList := by
    cases h : l.diagnostic? p.file <;> simp [h]
  simp [accept, requested, one, found, Feed.after]

theorem refused_eq {cause : InputFailure} (h : p.feed.first = .error cause) :
    { p with feed := p.feed.next, taken := p.taken + 1 } = p.requested 1 := by
  have none : p.feed.lexemes 1 = [] := by simp [Feed.lexemes, h, Except.toOption]
  simp [requested, none, Feed.after]

/-! ## going on -/

/-- What going on comes to: it passes over comments, to another lexeme or to a failure. -/
inductive Advanced (p : Parser) : EStateM.Result ParseFailure Parser Unit → Prop where
  | token {comments : List Lexeme} {l : Lexeme} {rest : List Scan}
      (feed : p.feed.toList = comments.map .ok ++ .ok l :: rest)
      (passed : ∀ c ∈ comments, c.token.kind = .comment)
      (last : l.token.kind = .comment → rest = []) :
      Advanced p (.ok () (p.requested (comments.length + 1)))
  | failure {comments : List Lexeme} {cause : InputFailure} {rest : List Scan}
      (feed : p.feed.toList = comments.map .ok ++ .error cause :: rest)
      (passed : ∀ c ∈ comments, c.token.kind = .comment) :
      Advanced p (.error (.input cause) (p.requested (comments.length + 1)))

theorem Advanced.of_comment {l : Lexeme} {ss : List Scan}
    {result : EStateM.Result ParseFailure Parser Unit} (feed : p.feed.toList = .ok l :: ss)
    (more : ss ≠ []) (comment : l.token.kind = .comment) (h : (p.requested 1).Advanced result) :
    p.Advanced result := by
  have next : (p.requested 1).feed.toList = ss := next_toList feed more
  have count (cs : List Lexeme) :
      (p.requested 1).requested (cs.length + 1) = p.requested ((l :: cs).length + 1) := by
    rw [← requested_add, List.length_cons, Nat.add_comm 1]
  cases h with
  | @token cs m rest feed' passed last =>
    rw [count]
    have given : p.feed.toList = (l :: cs).map .ok ++ .ok m :: rest := by
      rw [feed, ← next, feed']
      rfl
    exact .token given (List.forall_mem_cons.2 ⟨comment, passed⟩) last
  | @failure cs cause rest feed' passed =>
    rw [count]
    have given : p.feed.toList = (l :: cs).map .ok ++ .error cause :: rest := by
      rw [feed, ← next, feed']
      rfl
    exact .failure given (List.forall_mem_cons.2 ⟨comment, passed⟩)

/-- A lexeme that is taken at once. -/
theorem Advanced.of_first {l : Lexeme} {ss : List Scan} (feed : p.feed.toList = .ok l :: ss)
    (last : l.token.kind = .comment → ss = []) : p.Advanced (.ok () (p.requested 1)) :=
  have given : p.feed.toList = ([] : List Lexeme).map .ok ++ .ok l :: ss := feed
  .token given (by simp) last

theorem Advanced.of_failure {cause : InputFailure} {ss : List Scan}
    (feed : p.feed.toList = .error cause :: ss) :
    p.Advanced (.error (.input cause) (p.requested 1)) :=
  have given : p.feed.toList = ([] : List Lexeme).map .ok ++ .error cause :: ss := feed
  .failure given (by simp)

theorem advanceOver_advanced {first : Scan} {rest : List Scan} {p : Parser}
    (h : p.feed = ⟨first, rest⟩) : p.Advanced (advanceOver first rest p) := by
  induction rest generalizing first p with
  | nil =>
    have feed : p.feed.toList = [first] := by rw [h]; rfl
    cases first with
    | error cause =>
      rw [advanceOver, refused_eq (by rw [h])]
      exact .of_failure feed
    | ok l =>
      rw [advanceOver, accept_eq (by rw [h])]
      exact .of_first feed fun _ => rfl
  | cons next rest ih =>
    have feed : p.feed.toList = first :: next :: rest := by rw [h]; rfl
    cases first with
    | error cause =>
      rw [advanceOver, refused_eq (by rw [h])]
      exact .of_failure feed
    | ok l =>
      rw [advanceOver, accept_eq (by rw [h])]
      split
      · rename_i comment
        have later : (p.requested 1).feed = ⟨next, rest⟩ := by
          simp [requested, Feed.after, h, Feed.next]
        exact .of_comment feed (by simp) comment (ih later)
      · rename_i other
        exact .of_first feed fun comment => absurd comment other

theorem advance_advanced (p : Parser) : p.Advanced (advance p) :=
  advanceOver_advanced rfl

/-- The parser goes on from a token of a kind that it may leave behind. -/
structure Goes (may : TokenKind → Bool) (p q : Parser) : Prop where
  leaves : p.current.all (fun t => may t.kind) = true
  advanced : advance p = .ok () q

/-- The parser goes on some number of times. -/
abbrev Moves (may : TokenKind → Bool) : Parser → Parser → Prop :=
  Relation.ReflTransGen (Goes may)

/-! ## endings -/

/-- What a rule comes to, the kinds being those of the tokens that it may leave behind. -/
inductive Ends (may : TokenKind → Bool) (p : Parser) {α : Type} :
    EStateM.Result ParseFailure Parser α → Prop where
  | result {a : α} {q : Parser} (moves : p.Moves may q) : Ends may p (.ok a q)
  | input {cause : InputFailure} {q r : Parser} (moves : p.Moves may q)
      (leaves : q.current.all (fun t => may t.kind) = true)
      (failed : advance q = .error (.input cause) r) : Ends may p (.error (.input cause) r)
  | rejected {q : Parser} {t : Token} {expected : Expected} (moves : p.Moves may q)
      (current : q.current = some t) : Ends may p (rejection expected t q)
  | unprimed {q : Parser} (moves : p.Moves may q) (none : q.current = none) :
      Ends may p (.error .unprimed q)
  | stuck {q : Parser} (moves : p.Moves may q) : Ends may p (.error .stuck q)

theorem Ends.of_moves {α : Type} {result : EStateM.Result ParseFailure Parser α}
    (moves : p.Moves may q) (h : q.Ends may result) : p.Ends may result := by
  cases h with
  | result more => exact .result (moves.trans more)
  | input more leaves failed => exact .input (moves.trans more) leaves failed
  | rejected more current => exact .rejected (moves.trans more) current
  | unprimed more none => exact .unprimed (moves.trans more) none
  | stuck more => exact .stuck (moves.trans more)

theorem Ends.bind {α β : Type} {x : ParserM α} {f : α → ParserM β} (hx : p.Ends may (x p))
    (hf : ∀ a (q : Parser), q.Ends may (f a q)) : p.Ends may ((x >>= f) p) := by
  cases h : x p with
  | ok a q =>
    rw [h] at hx
    rw [bind_of_ok h]
    cases hx with
    | result moves => exact .of_moves moves (hf a q)
  | error e q =>
    rw [h] at hx
    rw [bind_of_error h]
    generalize hr : EStateM.Result.error e q = r at hx
    cases hx with
    | result => cases hr
    | input moves leaves failed =>
      cases hr
      exact .input moves leaves failed
    | rejected moves current =>
      obtain ⟨rfl, rfl⟩ := EStateM.Result.error.inj hr
      exact .rejected moves current
    | unprimed moves none =>
      cases hr
      exact .unprimed moves none
    | stuck moves =>
      cases hr
      exact .stuck moves

theorem Ends.of_rejected {α : Type} {result : EStateM.Result ParseFailure Parser α}
    {first : Option Diagnostic} (h : p.Ends may result)
    (rejected : result = .error (.rejected first) q) :
    ∃ expected t r, result = rejection expected t r ∧ p.Moves may r ∧ r.current = some t := by
  cases h with
  | rejected moves current => exact ⟨_, _, _, rfl, moves, current⟩
  | _ => cases rejected

theorem rejection_inj {α : Type} {e e' : Expected} {t u : Token}
    (h : (rejection e t p : EStateM.Result ParseFailure Parser α) = rejection e' u q) :
    p.current = q.current ∧ p.feed = q.feed := by
  have registered := (EStateM.Result.error.inj h).2
  have current := congrArg Parser.current registered
  have feed := congrArg Parser.feed registered
  exact ⟨current, feed⟩

theorem rejection_report {α : Type} {e e' : Expected} {t u : Token}
    (h : (rejection e t p : EStateM.Result ParseFailure Parser α) = rejection e' u q) :
    refusal e t p.file = refusal e' u q.file := by
  have registered := congrArg Parser.diagnostics (EStateM.Result.error.inj h).2
  exact List.singleton_inj.1 (List.append_inj' registered rfl).2

theorem rejection_message {α : Type} {e e' : Expected} {t : Token}
    (h : (rejection e t p : EStateM.Result ParseFailure Parser α) = rejection e' t q) :
    e.message = e'.message := by
  have messages := congrArg Diagnostic.message (rejection_report h)
  simpa only [refusal, String.append_left_inj] using messages

theorem Ends.of_rejection {α : Type} {e : Expected} {result : EStateM.Result ParseFailure Parser α}
    (h : p.Ends may result) (rejected : result = rejection e t q) :
    ∃ r, p.Moves may r ∧ r.current = q.current ∧ r.feed = q.feed := by
  cases h with
  | rejected moves => exact ⟨_, moves, rejection_inj rejected⟩
  | _ => cases rejected

end Parser
end BantamSyntax
