import BantamSyntax.Proofs.Parsing.Failing
import BantamSyntax.Proofs.Parsing.Lookahead
import BantamSyntax.Proofs.Session.Reporting

/-!
# Sequences of rules

Rules that are asked of one parser in any order, also after others have failed, and on tokens that
they were not made for. On a text each one gives a result, or rejects the token that it has come to.
-/
namespace BantamSyntax

open BantamSyntax.Parser Grammar

/-! ## the rest of a text -/

theorem Complete.drop {before ls : List Lexeme} (h : Complete (before ++ ls)) (more : ls ≠ []) :
    Complete ls := by
  induction before with
  | nil => exact h
  | cons l before ih =>
    generalize hs : l :: before ++ ls = all at h
    cases h with
    | ending => simp [more] at hs
    | cons _ _ _ rest =>
      obtain ⟨-, rfl⟩ := List.cons.inj hs
      exact ih rest

theorem Feed.after_last {f : Feed} {ss : List Scan} {s : Scan} (h : f.toList = ss ++ [s]) :
    (f.after (ss.length + 1)).toList = [s] := by
  have left := after_toList h (by simp)
  rw [after_add]
  generalize f.after ss.length = g at left
  obtain ⟨first, rest⟩ := g
  cases rest with
  | nil => exact left
  | cons next rest => simp [toList] at left

theorem Feed.mem_of_lexemes {f : Feed} {l : Lexeme} {n : Nat} (h : l ∈ f.lexemes n) :
    .ok l ∈ f.toList := by
  induction n generalizing f with
  | zero => simp [lexemes] at h
  | succ n ih =>
    rcases List.mem_append.1 h with h | h
    · cases hf : f.first with
      | error cause => simp [hf, Except.toOption] at h
      | ok m =>
        obtain rfl : l = m := by simpa [hf, Except.toOption] using h
        exact hf ▸ List.mem_cons_self
    · exact Parser.Feed.next_subset f _ (ih h)

namespace Parser

variable {name : String} {p q : Parser} {t : Token} {ts : List Token}

/-- The feed of the parser goes on to the end of a text and does not fail. -/
structure Fed (name : String) (p : Parser) : Prop where
  file : p.file = name
  left : ∃ ls, p.feed.toList = ls.map .ok ∧ Complete ls

/-- There is a token before the parser. -/
structure Primed (name : String) (p : Parser) : Prop extends p.Fed name where
  current : ∃ t, p.current = some t ∧ t.Genuine

/-- At the end of the text the last token is read again and again. -/
theorem Fed.advance (h : p.Fed name) :
    ∃ n, Parser.advance p = .ok () (p.requested n) ∧ (p.requested n).Primed name := by
  obtain ⟨file, ls, feed, complete⟩ := h
  have advanced := advance_advanced p
  cases hp : Parser.advance p with
  | error e q =>
    rw [hp] at advanced
    cases advanced with
    | @failure comments cause rest given =>
      have among : .error cause ∈ ls.map (Except.ok : Lexeme → Scan) := by simp [← feed, given]
      simp at among
  | ok _ q =>
    obtain ⟨comments, l, rest, rfl, -, rfl, given, left⟩ := advance_text feed hp
    refine ⟨comments.length + 1, rfl, ⟨file, ?_⟩, l.token, ?_, complete.genuine (by simp)⟩
    · by_cases last : rest = []
      · subst last
        have feed : p.feed.toList = comments.map .ok ++ [.ok l] := by simp [feed]
        have again := Feed.after_last feed
        rw [List.length_map] at again
        exact ⟨[l], again, complete.drop (by simp)⟩
      · rw [List.append_cons] at complete
        exact ⟨rest, left last, complete.drop last⟩
    · simp [requested, given]

theorem Primed.moves {may : TokenKind → Bool} (h : p.Primed name) (moves : p.Moves may q) :
    ∃ n, q = p.requested n ∧ q.Primed name := by
  induction moves with
  | refl => exact ⟨0, by simp [requested, Feed.lexemes, Feed.after], h⟩
  | tail _ step ih =>
    obtain ⟨m, rfl, primed⟩ := ih
    obtain ⟨n, gone, next⟩ := primed.advance
    obtain rfl := (EStateM.Result.ok.inj (gone.symm.trans step.advanced)).2
    exact ⟨m + n, (requested_add m n p).symm, next⟩

theorem Primed.register (h : p.Primed name) (d : Diagnostic) : (p.register d).Primed name :=
  ⟨⟨h.file, h.left⟩, h.current⟩

theorem Primed.sees (h : p.Primed name) (silent : p.diagnostics = []) (ht : p.current = some t) :
    ∃ ts, p.Sees name (t :: ts) := by
  obtain ⟨⟨file, ls, feed, complete⟩, u, hu, genuine⟩ := h
  obtain rfl : t = u := Option.some.inj (ht.symm.trans hu)
  by_cases last : t.kind = .endOfFile
  · exact ⟨[], .ending file ht last silent⟩
  · exact ⟨_, .token file ht last genuine (fun _ => silent) feed complete⟩

/-! ## steps enough -/

section

variable {α β : Type} {x : ParserM α} {f : α → ParserM β} {P : List Token → α → List Token → Prop}

/-- The rule has steps enough for what is before the parser. -/
def Lives (x : ParserM α) (p : Parser) : Prop :=
  ∀ r, x p ≠ .error .stuck r

theorem Lives.pure (a : α) : Lives (pure a) p :=
  fun _ => pure_ne_error

theorem Lives.bind (hx : Lives x p) (hf : ∀ a q, Lives (f a) q) : Lives (x >>= f) p := by
  intro r stuck
  rcases bind_eq_error.1 stuck with h | ⟨a, q, -, h⟩
  · exact hx r h
  · exact hf a q r h

theorem Lives.token : Lives token p := by
  cases ht : p.current with
  | none =>
    rw [Lives, token_unprimed ht]
    exact error_ne_stuck (by decide)
  | some t =>
    rw [Lives, token_eq ht]
    exact fun _ h => nomatch h

theorem Lives.advance : Lives Parser.advance p := by
  have advanced := advance_advanced p
  intro r stuck
  rw [stuck] at advanced
  cases advanced

theorem Lives.fail {expected : Expected} : Lives (fail expected : ParserM α) p := by
  cases ht : p.current with
  | none =>
    rw [Lives, Parser.fail, bind_of_error (token_unprimed ht)]
    exact error_ne_stuck (by decide)
  | some t =>
    rw [Lives, fail_eq ht]
    exact error_ne_stuck (by simp)

theorem Lives.check {kind : TokenKind} : Lives (check kind) p :=
  .bind .token fun _ _ => .pure _

theorem Lives.takeIf {kind : TokenKind} : Lives (takeIf kind) p := by
  refine .bind .check fun found q => ?_
  split
  · exact .bind .advance fun _ _ => .pure _
  · exact .pure _

theorem Lives.expect {kind : TokenKind} {expected : Expected} : Lives (expect kind expected) p := by
  refine .bind .check fun found q => ?_
  split
  · exact .bind .token fun _ _ => .bind .advance fun _ _ => .pure _
  · exact .fail

theorem Reads.lives (h : Reads name x ts P) (sees : p.Sees name ts) : Lives x p := by
  obtain ⟨o, ho, -⟩ := h
  cases o with
  | none =>
    obtain ⟨d, q, hq⟩ := ho p sees
    rw [Lives, hq]
    exact error_ne_stuck (by simp)
  | some o =>
    obtain ⟨q, hq, -⟩ := ho p sees
    rw [Lives, hq]
    exact fun _ h => nomatch h

theorem lives_withSteps {rule : Nat → ParserM α} (f : α → β) (sees : p.Sees name ts)
    (reads : ∀ n, ts.length ≤ n + 1 → Reads name (rule (n + 1)) ts P) :
    Lives (do return f (← withSteps rule)) p := by
  have enough := (reads (p.feed.length + 1) sees.length_le).lives sees
  exact .bind enough fun _ _ => .pure _

theorem advanceOver_recast {first : Scan} {rest : List Scan}
    (gone : advanceOver first rest p = .ok () q) (o : Option Token) :
    advanceOver first rest { p with current := o } = .ok () q := by
  induction rest generalizing first p with
  | nil =>
    cases first with
    | error => simp [advanceOver] at gone
    | ok l => exact gone
  | cons next rest ih =>
    cases first with
    | error => simp [advanceOver] at gone
    | ok l =>
      rw [advanceOver] at gone ⊢
      split at gone
      · rw [if_pos ‹_›]
        exact gone
      · rw [if_neg ‹_›]
        exact gone

/-- A rule that leaves the current token behind, whatever it is, does not depend on its kind. -/
theorem take_recast {k : Token → ParserM α} (same : ∀ t kind, k { t with kind } = k t)
    (ht : p.current = some t) (gone : advance p = .ok () q) (kind : TokenKind) :
    (take >>= k) { p with current := some { t with kind } } = (take >>= k) p := by
  have again : advance { p with current := some { t with kind } } = .ok () q :=
    advanceOver_recast gone _
  have here : take p = .ok t q := by
    rw [take, bind_of_ok (token_eq ht), bind_of_ok gone]
    rfl
  have there : take { p with current := some { t with kind } } = .ok { t with kind } q := by
    rw [take, bind_of_ok (token_eq rfl), bind_of_ok again]
    rfl
  rw [bind_of_ok here, bind_of_ok there, same]

theorem withSteps_recast {rule : Nat → ParserM α} {k : Nat → Token → ParserM α} (f : α → β)
    (shape : ∀ n, rule n = take >>= k n) (same : ∀ n t kind, k n { t with kind } = k n t)
    (ht : p.current = some t) (gone : advance p = .ok () q) (kind : TokenKind) :
    (do return f (← withSteps rule)) { p with current := some { t with kind } } =
      (do return f (← withSteps rule)) p := by
  have rules : withSteps rule { p with current := some { t with kind } } = withSteps rule p := by
    show rule (p.feed.length + 2) _ = rule (p.feed.length + 2) p
    rw [shape]
    exact take_recast (same _) ht gone kind
  let finish (a : α) : ParserM β := return f a
  show (withSteps rule >>= finish) _ = (withSteps rule >>= finish) p
  cases h : withSteps rule p with
  | ok a r => rw [bind_of_ok h, bind_of_ok (rules.trans h)]
  | error e r => rw [bind_of_error h, bind_of_error (rules.trans h)]

end

end Parser

/-! ## rules by themselves -/

namespace Grammar

variable {name : String} {p q : Parser} {t : Token} {ts : List Token} {ds : List Diagnostic}

/-- The kind that the current token has where the grammar uses a rule that leaves it behind without
a look at it. -/
def Rule.presumes? : Rule → Option TokenKind
  | ifStatement => some .ifWord
  | whileStatement => some .whileWord
  | forStatement => some .forWord
  | breakStatement => some .breakWord
  | returnStatement => some .returnWord
  | declaration => some .varWord
  | newExpression => some .newWord
  | castExpression => some .castWord
  | variableOrCall => some .identifier
  | _ => none

theorem Rule.recast {rule : Rule} {kind : TokenKind} (presumes : rule.presumes? = some kind)
    (ht : p.current = some t) (gone : Parser.advance p = .ok () q) :
    rule.run { p with current := some { t with kind } } = rule.run p := by
  cases rule with
  | ifStatement | whileStatement | forStatement | breakStatement | returnStatement | declaration
  | newExpression | castExpression | variableOrCall =>
    exact withSteps_recast _ (fun _ => rfl) (fun _ _ _ => rfl) ht gone kind
  | _ => cases presumes

theorem Rule.genuine_of_presumes {rule : Rule} {kind : TokenKind}
    (presumes : rule.presumes? = some kind) (t : Token) : { t with kind }.Genuine := by
  refine Token.genuine_of_kind ?_
  cases rule <;> cases presumes <;> rfl

/-- A rule that finds the kind of token it was made for has steps enough. -/
theorem Rule.lives_of_sees (rule : Rule) (sees : p.Sees name (t :: ts))
    (presumed : ∀ kind ∈ rule.presumes?, t.kind = kind) : Lives rule.run p := by
  have expressions (n : Nat) : ReadsExpr name (Grammar.expression n) n .expression :=
    expression_reads n
  have fewer (n : Nat) : ReadsExpr name (Grammar.expression (n + 1)) n .expression :=
    fun us hus => expressions (n + 1) us (Nat.le_succ_of_le hus)
  have statements (n : Nat) : ReadsStmt name (Grammar.statement n) n := statement_reads n
  have levels (ls : List Level) : Lives (Rule.ofLevels ls) p :=
    lives_withSteps _ sees fun n hn => cascade_reads (fewer n) ls _ hn
  cases rule with
  | program => exact lives_withSteps _ sees fun n hn => program_reads hn
  | classDeclaration => exact lives_withSteps _ sees fun n hn => classDeclaration_reads hn
  | member => exact lives_withSteps _ sees fun n hn => member_reads hn
  | parameters =>
    exact lives_withSteps _ sees fun n hn => commaList_reads (fun _ _ => formal_reads) hn hn
  | formal => exact .bind (formal_reads.lives sees) fun _ _ => .pure _
  | statement => exact lives_withSteps _ sees fun n hn => statements (n + 1) _ hn
  | ifStatement =>
    exact lives_withSteps _ sees fun n hn => ifStatement_reads (expressions _) (statements _)
      (presumed _ rfl) (Nat.le_of_succ_le hn)
  | whileStatement =>
    exact lives_withSteps _ sees fun n hn => whileStatement_reads (expressions _) (statements _)
      (presumed _ rfl) (Nat.le_of_succ_le hn)
  | forStatement =>
    exact lives_withSteps _ sees fun n hn => forStatement_reads (expressions _) (statements _)
      (presumed _ rfl) (Nat.le_of_succ_le hn)
  | breakStatement =>
    exact lives_withSteps _ sees fun n hn => breakStatement_reads (presumed _ rfl)
  | returnStatement =>
    exact lives_withSteps _ sees fun n hn => returnStatement_reads (expressions _)
      (presumed _ rfl) (Nat.le_of_succ_le hn)
  | declaration =>
    exact lives_withSteps _ sees fun n hn => declaration_reads (expressions _) (presumed _ rfl)
      (Nat.le_of_succ_le hn)
  | block =>
    exact lives_withSteps _ sees fun n hn => block_reads (statements _) (Nat.le_succ_of_le hn)
      (Nat.le_succ_of_le hn)
  | expressionStatement =>
    exact lives_withSteps _ sees fun n hn => expressionStatement_reads (expressions _) hn
  | expression => exact lives_withSteps _ sees fun n hn => expressions _ _ hn
  | disjunction | conjunction | equality | relation | sum | product => exact levels _
  | unary => exact lives_withSteps _ sees fun n hn => unary_reads (fewer n) _ hn
  | newExpression => exact lives_withSteps _ sees fun n hn => newExpression_reads (presumed _ rfl)
  | castExpression =>
    exact lives_withSteps _ sees fun n hn => castExpression_reads (expressions _)
      (presumed _ rfl) (Nat.le_of_succ_le hn)
  | signed => exact lives_withSteps _ sees fun n hn => signed_reads (fewer n) _ hn hn
  | suffixed => exact lives_withSteps _ sees fun n hn => suffixed_reads (fewer n) _ hn
  | primary => exact lives_withSteps _ sees fun n hn => primary_reads (fewer n) _ hn
  | variableOrCall =>
    exact lives_withSteps _ sees fun n hn => variableOrCall_reads (fewer n) (presumed _ rfl)
      (Nat.le_of_succ_le_succ hn)
  | arguments =>
    exact lives_withSteps _ sees fun n hn => commaList_reads (fun us hus => expressions _ us hus)
      hn hn
  | advance =>
    exact .bind (.bind (fun _ h => nomatch h) fun _ _ => .bind .advance fun _ _ => .pure _)
      fun _ _ => .pure _
  | atEnd | check => exact .bind .check fun _ _ => .pure _
  | takeIf => exact .bind .takeIf fun _ _ => .pure _
  | expect => exact .bind .expect fun _ _ => .pure _
  | name => exact .bind (.bind .expect fun _ _ => .pure _) fun _ _ => .pure _
  | fail => exact .fail

/-- A rule does the same behind any diagnostics. -/
theorem Rule.along (rule : Rule) (behind : Behind ds p q) :
    Along ds (rule.run p) (rule.run q) := by
  refine Rule.of_twins (P := fun x => Along ds (x p) (x q)) ?_ ?_ ?_ ?_ rule
  · intro α R rule f twins
    have rules : Along ds (withSteps rule p) (withSteps rule q) := by
      show Along ds (rule (p.feed.length + 2) p) (rule (q.feed.length + 2) q)
      rw [behind.feed]
      exact (twins _).along behind
    exact rules.bind fun _ _ _ _ behind => .result behind
  · intro α R x f twins
    exact (twins.along behind).bind fun _ _ _ _ behind => .result behind
  · have gone : Along ds (passed p) (passed q) := by
      show Along ds ((do Parser.advance; return p.current) p)
        ((do Parser.advance; return q.current) q)
      rw [behind.current]
      exact (advance_along behind).bind fun _ _ _ _ behind => .result behind
    exact gone.bind fun _ _ _ _ behind => .result behind
  · intro message
    have twins : Twins Eq (fun _ => true) (fun (_ _ : Parsed) => True)
        (Parser.fail (.stated message)) (Parser.fail (.stated message)) := .fail
    exact twins.along behind

end Grammar

/-! ## rules in texts -/

namespace Parser

variable {name : String} {p q : Parser} {rule : Rule}

/-- A rule has steps enough at any token of a text, whatever was reported before. -/
theorem Primed.lives (h : p.Primed name) (rule : Rule) : Lives rule.run p := by
  obtain ⟨t, ht, genuine⟩ := h.current
  let bare : Parser := { p with diagnostics := [] }
  have primed : bare.Primed name := ⟨⟨h.file, h.left⟩, t, ht, genuine⟩
  have lives : Lives rule.run bare := by
    cases presumes : rule.presumes? with
    | none =>
      obtain ⟨ts, sees⟩ := primed.sees rfl ht
      exact rule.lives_of_sees sees (by simp [presumes])
    | some kind =>
      -- On a token it was not made for the rule does as on one that it was made for.
      let cast : Parser := { bare with current := some { t with kind } }
      have primed' : cast.Primed name :=
        ⟨⟨h.file, h.left⟩, _, rfl, Rule.genuine_of_presumes presumes t⟩
      obtain ⟨ts, sees⟩ := primed'.sees rfl rfl
      obtain ⟨n, gone, -⟩ := primed.advance
      rw [Lives, ← Rule.recast (p := bare) presumes ht gone]
      exact rule.lives_of_sees sees (by simp [presumes])
  have behind : Behind p.diagnostics bare p := ⟨rfl, rfl, rfl, rfl, (List.append_nil _).symm⟩
  have along := rule.along behind
  intro r stuck
  rw [stuck] at along
  generalize result : rule.run bare = x at along
  cases along with
  | stuck => exact lives _ result

/-- In a text a rule goes on from token to token, and gives a result or rejects the one that it has
come to. -/
theorem Primed.call (h : p.Primed name) (rule : Rule) : ∃ n, (p.requested n).Primed name ∧
    ((∃ a, rule.run p = .ok a (p.requested n)) ∨
      ∃ e t, rule.run p = rejection e t (p.requested n) ∧ (p.requested n).current = some t) := by
  have ends := rule.ends p
  have lives := h.lives rule
  generalize result : rule.run p = x at ends
  cases ends with
  | result moves =>
    obtain ⟨n, rfl, primed⟩ := h.moves moves
    exact ⟨n, primed, .inl ⟨_, rfl⟩⟩
  | rejected moves current =>
    obtain ⟨n, rfl, primed⟩ := h.moves moves
    exact ⟨n, primed, .inr ⟨_, _, rfl, current⟩⟩
  | input moves _ failed =>
    obtain ⟨n, rfl, primed⟩ := h.moves moves
    obtain ⟨m, gone, -⟩ := primed.advance
    rw [gone] at failed
    cases failed
  | unprimed moves none =>
    obtain ⟨n, rfl, primed⟩ := h.moves moves
    obtain ⟨t, ht, -⟩ := primed.current
    rw [none] at ht
    cases ht
  | stuck moves => exact absurd result (lives _)

/-! ## accounts -/

/-- What a rule comes to: a result, after which only faults that it has met have been reported, or a
rejection, which has reported last that the current token is not what was expected. -/
inductive Answers (name : String) (p : Parser) :
    EStateM.Result ParseFailure Parser Parsed → Prop where
  | result {a : Parsed} {q : Parser} {faults : List Diagnostic}
      (lexical : ∀ d ∈ faults, d.kind = .lexical)
      (reported : q.diagnostics = p.diagnostics ++ faults) : Answers name p (.ok a q)
  | rejected {q : Parser} {t : Token} {message : String} {faults : List Diagnostic}
      (lexical : ∀ d ∈ faults, d.kind = .lexical) (current : q.current = some t)
      (reported : q.diagnostics = p.diagnostics ++ faults ++
        [⟨.syntactic, message ++ ", found " ++ found t, some t.line, some name⟩]) :
      Answers name p (.error (.rejected q.diagnostics.head?) q)

/-- The lexical faults reported to the parser are those of the lexemes that it was given. -/
structure Accounts (name : String) (f : Feed) (p : Parser) : Prop extends p.Primed name where
  looks : p.LooksAt f
  lexical : p.diagnostics.filter (·.kind = .lexical) =
    (f.lexemes p.taken).filterMap (·.diagnostic? name)

theorem lexical_diagnostics (ls : List Lexeme) (name : String) :
    ∀ d ∈ ls.filterMap (·.diagnostic? name), d.kind = .lexical := by
  intro d among
  obtain ⟨l, -, told⟩ := List.mem_filterMap.1 among
  obtain ⟨fault, -, rfl⟩ := Option.map_eq_some_iff.1 told
  rfl

theorem filter_lexical (ls : List Lexeme) (name : String) :
    (ls.filterMap (·.diagnostic? name)).filter (·.kind = .lexical) =
      ls.filterMap (·.diagnostic? name) :=
  List.filter_eq_self.2 fun d among => decide_eq_true (lexical_diagnostics ls name d among)

variable {f : Feed}

theorem lexical_requested (feed : p.feed = f.after p.taken) (file : p.file = name)
    (lexical : p.diagnostics.filter (·.kind = .lexical) =
      (f.lexemes p.taken).filterMap (·.diagnostic? name)) (n : Nat) :
    (p.requested n).diagnostics.filter (·.kind = .lexical) =
      (f.lexemes (p.requested n).taken).filterMap (·.diagnostic? name) := by
  simp only [requested, List.filter_append, lexical, file, filter_lexical, feed,
    Feed.lexemes_add, List.filterMap_append]

theorem Accounts.call (h : p.Accounts name f) (settles : f.Settles) (rule : Rule) :
    Answers name p (rule.run p) ∧ (stateOf (rule.run p)).Accounts name f := by
  have looks := h.looks.ends settles (rule.ends p)
  obtain ⟨n, primed, ⟨a, result⟩ | ⟨e, t, result, current⟩⟩ := h.toPrimed.call rule
  all_goals
    have lexical := lexical_requested h.looks.feed_eq h.file h.lexical n
    have reported : (p.requested n).diagnostics =
      p.diagnostics ++ (p.feed.lexemes n).filterMap (·.diagnostic? p.file) := rfl
    rw [result] at looks ⊢
  · exact ⟨.result (lexical_diagnostics _ _) reported, primed, looks, lexical⟩
  · constructor
    · have told : ((p.requested n).register (refusal e t (p.requested n).file)).diagnostics =
          p.diagnostics ++ (p.feed.lexemes n).filterMap (·.diagnostic? p.file) ++
            [⟨.syntactic, e.message ++ ", found " ++ found t, some t.line, some name⟩] := by
        rw [register, reported, refusal, primed.file]
      exact .rejected (lexical_diagnostics _ _) current told
    · refine ⟨primed.register _, looks, ?_⟩
      rw [rejection, stateOf_error, register, List.filter_append, lexical]
      exact List.append_nil _

theorem Accounts.runAll (h : p.Accounts name f) (settles : f.Settles) (rs : List Rule) :
    (p.runAll rs).Accounts name f := by
  induction rs generalizing p with
  | nil => exact h
  | cons r rs ih => exact ih (h.call settles r).2

/-- A new parser accounts for all as soon as it has a token. -/
theorem accounts_advance (text name : String) :
    let s := Scanner.ofSource (.ofText text name)
    ((Parser.ofScanner s).runAll [.advance]).Accounts name s.feed := by
  intro s
  have fed : (Parser.ofScanner s).Fed name := ⟨rfl, _, feed_ofText text name, lexemes_complete _ _⟩
  obtain ⟨n, gone, primed⟩ := fed.advance
  have looks := (looksAt_ofScanner s []).runAll s.settles_feed [.advance]
  have result : Rule.advance.run (Parser.ofScanner s) =
      .ok (.token none) ((Parser.ofScanner s).requested n) := by
    have passes : passed (Parser.ofScanner s) = .ok none ((Parser.ofScanner s).requested n) := by
      show (do Parser.advance; return (Parser.ofScanner s).current) (Parser.ofScanner s) = _
      rw [bind_of_ok gone]
      rfl
    exact bind_of_ok passes
  have reached : (Parser.ofScanner s).runAll [.advance] = (Parser.ofScanner s).requested n := by
    rw [runAll, result]
    rfl
  rw [reached] at looks ⊢
  exact ⟨primed, looks, lexical_requested rfl rfl rfl n⟩

end Parser

/-- Rules asked of the parser of a text in any order, from the first token on. Each gives a result
and reports no syntax error, or reports one, last of all, at the current token. That token is the
last one that has been scanned, so it is not left behind. The lexical errors reported so far are
those of the faulty tokens scanned so far, in order. -/
theorem Grammar.sequence_reports (text name : String) (rs : List Rule) (rule : Rule) :
    let s := Scanner.ofSource (.ofText text name)
    let p := (Parser.ofScanner s).runAll (.advance :: rs)
    let q := stateOf (rule.run p)
    let scanned := (s.feed.lexemes q.taken).map (·.token)
    Answers name p (rule.run p) ∧ q.current.isSome ∧ q.current = scanned.getLast? ∧
      List.Forall₂ (Session.Reported name) (scanned.filter (·.kind = .error))
        (q.diagnostics.filter (·.kind = .lexical)) := by
  intro s p q scanned
  have accounts : p.Accounts name s.feed :=
    (accounts_advance text name).runAll s.settles_feed rs
  obtain ⟨answers, after⟩ := accounts.call s.settles_feed rule
  have lexical : ∀ l ∈ s.feed.lexemes q.taken, Scanner.Lexical l := by
    intro l among
    have given := Feed.mem_of_lexemes among
    rw [feed_ofText, lexemes_eq] at given
    obtain ⟨m, hm, ⟨⟩⟩ := List.mem_map.1 given
    exact Scanner.lexical_of_mem hm
  refine ⟨answers, ?_, ?_, ?_⟩
  · obtain ⟨t, ht, -⟩ := after.current
    rw [ht]
    rfl
  · rw [List.getLast?_map]
    exact after.looks.current_eq
  · rw [after.lexical]
    exact Session.forall₂_reported name lexical

end BantamSyntax
