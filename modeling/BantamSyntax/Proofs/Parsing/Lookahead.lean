import BantamSyntax.Grammar.Rule
import BantamSyntax.Proofs.Parsing.Lockstep
import BantamSyntax.Proofs.Parsing.TwinRules

/-!
# The lookahead

What the current token of a parser is after any rules, in any order, and wherever the input fails.
-/
namespace BantamSyntax

open BantamSyntax.Parser Grammar

/-! ## rules -/

namespace Grammar

theorem broad_all : Broad fun _ => true :=
  fun _ _ => rfl

theorem all_leave {o : Option Token} : (o.all fun _ => true) = true := by
  cases o <;> rfl

/-- What holds of going on, and of all that does alike on like tokens, with or without steps, holds
of each rule. -/
theorem Rule.of_twins {P : ParserM Parsed → Prop}
    (steps : ∀ {α : Type} {R : α → α → Prop} {rule : Nat → ParserM α} (f : α → Parsed),
      (∀ n, Twins Eq (fun _ => true) R (rule n) (rule n)) → P (do return f (← withSteps rule)))
    (plain : ∀ {α : Type} {R : α → α → Prop} {x : ParserM α} (f : α → Parsed),
      Twins Eq (fun _ => true) R x x → P (do return f (← x)))
    (going : P (do return .token (← passed)))
    (failing : ∀ message, P (Parser.fail (.stated message))) (rule : Rule) : P rule.run := by
  have hx (n : Nat) : Twins Eq (fun _ => true) (Expr.Alike Eq) (Grammar.expression n)
      (Grammar.expression n) := expression_twins broad_all (Nat.le_refl n)
  have hy (n : Nat) : Twins Eq (fun _ => true) (Stmt.Alike Eq) (Grammar.statement n)
      (Grammar.statement n) := statement_twins broad_all (Nat.le_refl n)
  have levels (ls : List Level) : P (Rule.ofLevels ls) :=
    steps _ fun n => cascade_twins broad_all (hx n) (Nat.le_refl n) ls
  cases rule with
  | program => exact steps _ fun n => program_twins broad_all (Nat.le_refl n)
  | classDeclaration => exact steps _ fun n => classDeclaration_twins broad_all (Nat.le_refl n)
  | member => exact steps _ fun n => member_twins broad_all (Nat.le_refl n)
  | parameters => exact steps _ fun n => parameters_twins broad_all (Nat.le_refl n)
  | formal => exact plain _ (formal_twins broad_all)
  | statement => exact steps _ hy
  | ifStatement =>
    exact steps _ fun n _ _ rel => ifStatement_twins broad_all (hx n) (hy n) rel all_leave
  | whileStatement =>
    exact steps _ fun n _ _ rel => whileStatement_twins broad_all (hx n) (hy n) rel all_leave
  | forStatement =>
    exact steps _ fun n _ _ rel => forStatement_twins broad_all (hx n) (hy n) rel all_leave
  | breakStatement => exact steps _ fun n _ _ rel => breakStatement_twins broad_all rel all_leave
  | returnStatement =>
    exact steps _ fun n _ _ rel => returnStatement_twins broad_all (hx n) rel all_leave
  | declaration => exact steps _ fun n _ _ rel => declaration_twins broad_all (hx n) rel all_leave
  | block => exact steps _ fun n => block_twins broad_all (hy n) (Nat.le_refl n)
  | expressionStatement => exact steps _ fun n => expressionStatement_twins broad_all (hx n)
  | expression => exact steps _ hx
  | disjunction | conjunction | equality | relation | sum | product => exact levels _
  | unary => exact steps _ fun n => unary_twins broad_all (hx n) (Nat.le_refl n)
  | newExpression => exact steps _ fun n _ _ rel => newExpression_twins broad_all rel all_leave
  | castExpression =>
    exact steps _ fun n _ _ rel => castExpression_twins broad_all (hx n) rel all_leave
  | signed =>
    exact steps _ fun n => signed_twins broad_all (hx n) (Nat.le_refl n) (Nat.le_refl n)
  | suffixed => exact steps _ fun n => suffixed_twins broad_all (hx n) (Nat.le_refl n)
  | primary => exact steps _ fun n => primary_twins broad_all (hx n) (Nat.le_refl n)
  | variableOrCall =>
    exact steps _ fun n _ _ rel => variableOrCall_twins broad_all (hx n) (Nat.le_refl n) rel
      all_leave
  | arguments => exact steps _ fun n => arguments_twins broad_all (hx n) (Nat.le_refl n)
  | advance => exact going
  | atEnd | check => exact plain _ Twins.check
  | takeIf => exact plain _ (.takeIf rfl)
  | expect => exact plain _ (.expect rfl)
  | name => exact plain _ (.name rfl)
  | fail message => exact failing message

theorem ends_passed (p : Parser) : p.Ends (fun _ => true) (passed p) := by
  have gone : Twins Eq (fun _ => true) (fun _ _ => True)
      (do Parser.advance; return p.current) (do Parser.advance; return p.current) :=
    fun _ _ _ => .advance all_leave (.pure trivial)
  exact gone.ends p

/-- Each rule goes from token to token and ends as a rule can end. -/
theorem Rule.ends (rule : Rule) (p : Parser) : p.Ends (fun _ => true) (rule.run p) := by
  refine Rule.of_twins (P := fun x => p.Ends (fun _ => true) (x p)) ?_ ?_ ?_ ?_ rule
  · intro α R rule f twins
    exact .bind ((twins _).ends p) fun _ _ => .result .refl
  · intro α R x f twins
    exact .bind (twins.ends p) fun _ _ => .result .refl
  · exact .bind (ends_passed p) fun _ _ => .result .refl
  · intro message
    exact (Twins.fail (R := fun _ _ => True)).ends p

end Grammar

/-! ## feeds that end -/

/-- What is given again ever after is no comment. -/
def Feed.Settles (f : Feed) : Prop :=
  ∀ l, f.toList.getLast? = some (.ok l) → l.token.kind ≠ .comment

theorem Feed.settles_next {f : Feed} (h : f.Settles) : f.next.Settles := by
  obtain ⟨first, rest⟩ := f
  cases rest with
  | nil => exact h
  | cons next rest => exact fun l hl => h l (by rw [toList, List.getLast?_cons_cons]; exact hl)

theorem Feed.settles_after {f : Feed} (h : f.Settles) (n : Nat) : (f.after n).Settles := by
  induction n generalizing f with
  | zero => exact h
  | succ n ih => exact ih (settles_next h)

theorem Scanner.Feeds.ne_nil {s : Scanner} {xs : List Scan} (h : s.Feeds xs) : xs ≠ [] := by
  cases h <;> simp

/-- A scanner gives the end of its input, or fails, ever after. -/
theorem Scanner.settles_feed (s : Scanner) : s.feed.Settles := by
  have feeds := s.feeds_feed
  unfold Feed.Settles
  generalize s.feed.toList = xs at feeds
  induction feeds with
  | ending _ last =>
    rintro l ⟨⟩
    simp [last]
  | lexeme _ _ later ih | failure _ later ih =>
    obtain ⟨x, xs, rfl⟩ := List.exists_cons_of_ne_nil later.ne_nil
    exact fun l hl => ih l (by rwa [List.getLast?_cons_cons] at hl)
  | stuck => nofun

/-! ## requests in a row -/

/-- The current token of the parser is the last one that its requests to the feed gave. It is a
comment only if the very last request failed. -/
structure Parser.LooksAt (f : Feed) (p : Parser) : Prop where
  feed_eq : p.feed = f.after p.taken
  current_eq : p.current = (f.lexemes p.taken).getLast?.map (·.token)
  comment : ∀ t, p.current = some t → t.kind = .comment →
    ∃ n cause, p.taken = n + 1 ∧ (f.after n).first = .error cause

namespace Parser.LooksAt

variable {f : Feed} {p q : Parser}

theorem current_requested (h : p.LooksAt f) (n : Nat) :
    (p.requested n).current = (f.lexemes (p.requested n).taken).getLast?.map (·.token) := by
  simp [requested, Feed.lexemes_add, List.getLast?_append, Option.map_or, h.current_eq,
    ← h.feed_eq]

theorem feed_requested (h : p.LooksAt f) (n : Nat) :
    (p.requested n).feed = f.after (p.requested n).taken := by
  simp [requested, Feed.after_add, ← h.feed_eq]

/-- Also a failure in going on leaves the parser so. -/
theorem advanced (h : p.LooksAt f) (settles : f.Settles)
    {result : EStateM.Result ParseFailure Parser Unit} (hr : p.Advanced result) :
    (stateOf result).LooksAt f := by
  cases hr with
  | @token comments l rest feed passed last =>
    refine ⟨h.feed_requested _, h.current_requested _, fun t ht comment => absurd comment ?_⟩
    obtain rfl : l.token = t := by simpa [requested, Feed.lexemes_given feed] using ht
    intro comment
    refine Feed.settles_after settles p.taken l ?_ comment
    rw [← h.feed_eq, feed, last comment]
    simp
  | @failure comments cause rest feed passed =>
    refine ⟨h.feed_requested _, h.current_requested _, fun t ht comment =>
      ⟨p.taken + comments.length, cause, rfl, ?_⟩⟩
    have left := Feed.after_toList feed (by simp)
    rw [List.length_map, h.feed_eq, ← Feed.after_add] at left
    exact (List.cons.inj left).1

theorem moves (h : p.LooksAt f) (settles : f.Settles) {may : TokenKind → Bool}
    (moves : p.Moves may q) : q.LooksAt f := by
  induction moves with
  | refl => exact h
  | tail _ step ih =>
    have advanced := ih.advanced settles (advance_advanced _)
    rwa [step.advanced] at advanced

theorem register (h : p.LooksAt f) (d : Diagnostic) : (p.register d).LooksAt f :=
  ⟨h.feed_eq, h.current_eq, h.comment⟩

theorem ends (h : p.LooksAt f) (settles : f.Settles) {may : TokenKind → Bool} {α : Type}
    {result : EStateM.Result ParseFailure Parser α} (ends : p.Ends may result) :
    (stateOf result).LooksAt f := by
  cases ends with
  | result moves | unprimed moves | stuck moves => exact h.moves settles moves
  | input moves _ failed =>
    have advanced := (h.moves settles moves).advanced settles (advance_advanced _)
    rwa [failed] at advanced
  | rejected moves => exact (h.moves settles moves).register _

end Parser.LooksAt

/-! ## rules in a row -/

/-- The parser after the rules, one by one, whatever each comes to. -/
def Parser.runAll : List Rule → Parser → Parser
  | [], p => p
  | r :: rs, p => runAll rs (stateOf (r.run p))

theorem Parser.LooksAt.runAll {f : Feed} {p : Parser} (h : p.LooksAt f) (settles : f.Settles)
    (rs : List Rule) : (p.runAll rs).LooksAt f := by
  induction rs generalizing p with
  | nil => exact h
  | cons r rs ih => exact ih (h.ends settles (r.ends p))

theorem Parser.looksAt_ofScanner (s : Scanner) (ds : List Diagnostic) :
    (Parser.ofScanner s ds).LooksAt s.feed :=
  ⟨rfl, rfl, by intro t ht; cases ht⟩

/-- The current token is a comment just where the request made last has failed and the one before
it gave a comment. -/
theorem Parser.LooksAt.comment_iff {f : Feed} {p : Parser} (h : p.LooksAt f) :
    (∃ t, p.current = some t ∧ t.kind = .comment) ↔
      ∃ n cause l, p.taken = n + 1 ∧ (f.after n).first = .error cause ∧
        (f.lexemes n).getLast? = some l ∧ l.token.kind = .comment := by
  have failed {n : Nat} {cause : InputFailure} (hn : (f.after n).first = .error cause) :
      f.lexemes (n + 1) = f.lexemes n := by
    have none : (f.after n).lexemes 1 = [] := by simp [Feed.lexemes, hn, Except.toOption]
    rw [Feed.lexemes_add, none, List.append_nil]
  constructor
  · rintro ⟨t, ht, comment⟩
    obtain ⟨n, cause, taken, hn⟩ := h.comment t ht comment
    rw [h.current_eq, taken, failed hn] at ht
    obtain ⟨l, hl, rfl⟩ := Option.map_eq_some_iff.1 ht
    exact ⟨n, cause, l, taken, hn, hl, comment⟩
  · rintro ⟨n, cause, l, taken, hn, hl, comment⟩
    exact ⟨l.token, by rw [h.current_eq, taken, failed hn, hl]; rfl, comment⟩

/-- Where going on fails after comments, the last one of these is left as the current token; only
where it fails at once is the current token sure to stay. So the current token is a comment just
where the request made last has failed after a comment, whatever rules were asked before. -/
theorem current_comment_only_after_failure (p : Parser) (s : Scanner) (ds : List Diagnostic)
    (rs : List Rule) :
    (match Parser.advance p with
      | .ok _ _ => True
      | .error e q => ∃ (comments : List Lexeme) (cause : InputFailure) (rest : List Scan),
        e = .input cause ∧ p.feed.toList = comments.map .ok ++ .error cause :: rest ∧
        (∀ c ∈ comments, c.token.kind = .comment) ∧
        q.current = (comments.getLast?.map (·.token)).or p.current ∧
        (q.current = p.current ↔ ∀ c ∈ comments.getLast?, p.current = some c.token)) ∧
    let q := (Parser.ofScanner s ds).runAll rs
    q.current = (s.feed.lexemes q.taken).getLast?.map (·.token) ∧
      ((∃ t, q.current = some t ∧ t.kind = .comment) ↔
        ∃ n cause l, q.taken = n + 1 ∧ (s.feed.after n).first = .error cause ∧
          (s.feed.lexemes n).getLast? = some l ∧ l.token.kind = .comment) := by
  constructor
  · have advanced := advance_advanced p
    cases h : Parser.advance p with
    | ok => trivial
    | error e q =>
      rw [h] at advanced
      cases advanced with
      | @failure comments cause rest feed passed =>
        have current : (p.requested (comments.length + 1)).current =
            (comments.getLast?.map (·.token)).or p.current := by
          simp [requested, Feed.lexemes_failed feed]
        refine ⟨comments, cause, rest, rfl, feed, passed, current, ?_⟩
        rw [current]
        cases comments.getLast? <;> simp [eq_comm]
  · have looks := (looksAt_ofScanner s ds).runAll s.settles_feed rs
    exact ⟨looks.current_eq, looks.comment_iff⟩

/-- A comment is passed over before the reader fails, and is the current token then. -/
theorem current_lost_after_comment :
    ∃ s : Scanner, ∃ p q : Parser, p = (Parser.ofScanner s).runAll [.advance] ∧
      Parser.advance p = .error (.input (.device "lost")) q ∧
      p.current = some ⟨.identifier, "a", 1⟩ ∧ q.current = some ⟨.comment, "// c", 1⟩ := by
  let reader : Reader := ⟨[.piece "a // c\n".toList, .failure (.device "lost")], none⟩
  let p := (Parser.ofScanner (.ofSource ⟨"<stream>", reader, false, false, [], false, 1⟩)).runAll
    [.advance]
  have first : p.current = some ⟨.identifier, "a", 1⟩ := by decide +kernel
  have second : (match Parser.advance p with
      | .error e q => some (e, q.current)
      | .ok _ _ => none) =
        some (.input (.device "lost"), some ⟨.comment, "// c", 1⟩) := by
    decide +kernel
  cases h : Parser.advance p with
  | ok =>
    rw [h] at second
    cases second
  | error e q =>
    rw [h] at second
    obtain ⟨rfl, current⟩ := Prod.ext_iff.1 (Option.some.inj second)
    exact ⟨_, p, q, rfl, h, first, current⟩

end BantamSyntax
