import BantamSyntax.Proofs.Parsing.CompletePrograms
import BantamSyntax.Proofs.Printing.RejectedExpressions

/-!
# Rejection of statements

A statement with an expression that is rejected is rejected, as the statements before it are read.
-/
namespace BantamSyntax

open Grammar Token BantamSyntax.Symbol BantamSyntax.Parser

variable {file : String}

/-! ## statements -/

theorem Stmt.exists_first {s : Stmt} {w : List Token} (h : w.map Token.symbol = s.symbols) :
    ∃ t v, w = t :: v ∧ t.kind ∈ stmtStarts := by
  have begins : ∃ x xs, s.symbols = x :: xs ∧ x.1 ∈ stmtStarts := by
    cases s with
    | expr _ e =>
      obtain ⟨x, xs, hx, first, _⟩ := e.symbols_first
      exact ⟨x, _, by rw [symbols, hx]; rfl, List.mem_append_right _ first⟩
    | _ => exact ⟨_, _, rfl, by decide⟩
  obtain ⟨x, xs, hx, first⟩ := begins
  rw [hx, List.map_eq_cons_iff] at h
  obtain ⟨t, v, rfl, rfl, _⟩ := h
  exact ⟨t, v, rfl, first⟩

/-- The rule for statements rejects the tokens, whatever comes after them. -/
def StmtRejects (file : String) (w : List Token) : Prop :=
  ∀ n us, (w ++ us).length ≤ n → Runs file (statement n) (w ++ us) none

namespace StmtRejects

variable {t l r : Token} {w u us : List Token} {e : Expr}

theorem append (h : StmtRejects file w) (u : List Token) : StmtRejects file (w ++ u) := by
  intro n us hn
  rw [List.append_assoc] at hn ⊢
  exact h n _ hn

/-- A statement whose first word is taken is rejected if the rest of it is. -/
theorem of_rest (h : ∀ n us, (w ++ us).length ≤ n →
    Runs file (statement (n + 1)) (t :: w ++ us) none) : StmtRejects file (t :: w) := by
  intro n us hn
  cases n with
  | zero => simp at hn
  | succ n =>
    simp only [List.cons_append, List.length_cons] at hn
    exact h n us (by omega)

theorem block (opening : t.kind = .leftBrace)
    (h : ∀ n k us, (w ++ us).length ≤ n → (w ++ us).length ≤ k →
      Runs file (untilBrace (statement n) k) (w ++ us) none) : StmtRejects file (t :: w) := by
  apply of_rest
  intro n us hn
  apply runs_token.bind
  rw [opening]
  have inner := h n (n + 1) us hn (by omega)
  exact ((runs_expect opening rfl).bind inner.bind_none).bind_none

theorem declare {m a : Token} (word : t.kind = .varWord) (name : m.kind = .identifier)
    (sign : a.kind = .assign) (h : Rejects file w .expression) :
    StmtRejects file (t :: m :: a :: w) := by
  apply of_rest
  intro n us hn
  apply runs_token.bind
  rw [word]
  simp only [List.cons_append, List.length_cons] at hn
  refine (runs_take (by rw [word]; rfl)).bind ((runs_name name).bind ?_)
  exact (runs_expect sign rfl).bind (h.expression (by omega)).bind_none

theorem expr (first : t.kind ∈ Place.expression.starts) (h : Rejects file (t :: w) .expression) :
    StmtRejects file (t :: w) := by
  apply of_rest
  intro n us hn
  apply runs_token.bind
  split
  case h_8 =>
    refine runs_token.bind (h.expression ?_).bind_none
    simp only [List.cons_append, List.length_cons]
    omega
  all_goals
    rename_i hk
    rw [hk] at first
    exact absurd first (by decide)

theorem «return» {o : Option Expr} (word : t.kind = .returnWord) (valid : ∀ x ∈ o, x.Valid)
    (unfaithful : o.all Expr.faithful = false) (h : w.map Token.symbol = Expr.symbolsOr o) :
    StmtRejects file (t :: w) := by
  apply of_rest
  intro n us hn
  apply runs_token.bind
  rw [word]
  refine (runs_take (by rw [word]; rfl)).bind (Runs.bind_none ?_)
  exact Expr.rejected_or valid unfaithful h (by simp) (by omega)

/-- The condition of an `if` or a `while` is rejected. -/
theorem condition (word : t.kind = .ifWord ∨ t.kind = .whileWord) (opening : l.kind = .leftParen)
    (h : Rejects file w .expression) : StmtRejects file (t :: l :: w) := by
  apply of_rest
  intro n us hn
  apply runs_token.bind
  simp only [List.cons_append, List.length_cons] at hn
  rcases word with word | word <;> rw [word] <;>
    exact (runs_take (by rw [word]; rfl)).bind
      ((runs_expect opening rfl).bind (h.expression (by omega)).bind_none)

/-- What an `if` or a `while` has after its condition is rejected. -/
theorem branch (word : t.kind = .ifWord ∨ t.kind = .whileWord) (opening : l.kind = .leftParen)
    (condition : IsExpr .expression w e) (closing : r.kind = .rightParen)
    (h : StmtRejects file u) : StmtRejects file (t :: l :: w ++ r :: u) := by
  apply of_rest (w := l :: w ++ r :: u)
  intro n us hn
  simp only [List.append_assoc, List.cons_append] at hn ⊢
  apply runs_token.bind
  have rest := h n us
  simp only [List.length_append, List.length_cons] at hn rest
  rcases word with word | word <;> rw [word] <;>
    refine (runs_take (by rw [word]; rfl)).bind (condition_runs opening condition closing ?_
      (Runs.bind_none (rest (by omega)))) <;>
    simp only [List.cons_append, List.length_append, List.length_cons] <;> omega

/-- The condition of an `if` or a `while` is rejected, or what comes after it is. -/
theorem of_condition {condition : Expr} (word : t.kind = .ifWord ∨ t.kind = .whileWord)
    (opening : l.kind = .leftParen) (valid : condition.Valid)
    (hw : w.map Token.symbol = condition.symbols) (closing : r.kind = .rightParen)
    (h : condition.faithful = true → StmtRejects file u) :
    StmtRejects file (t :: l :: w ++ r :: u) := by
  cases hf : condition.faithful with
  | false =>
    exact .condition word opening ((Expr.rejected_whole valid hf hw).append _)
  | true =>
    obtain ⟨e, he, _⟩ := Expr.reread_whole valid hf hw
    exact .branch word opening he closing (h hf)

theorem alternative {o : Token} {v : List Token} {s : Stmt} (word : t.kind = .ifWord)
    (opening : l.kind = .leftParen) (condition : IsExpr .expression w e)
    (closing : r.kind = .rightParen) (hs : StmtRuns file u s) (closed : s.dangles = false)
    (other : o.kind = .elseWord) (h : StmtRejects file v) :
    StmtRejects file (t :: l :: w ++ r :: u ++ o :: v) := by
  apply of_rest (w := l :: w ++ r :: u ++ o :: v)
  intro n us hn
  simp only [List.append_assoc, List.cons_append] at hn ⊢
  apply runs_token.bind
  have first := hs n o (v ++ us)
  have rest := h n us
  simp only [List.length_append, List.length_cons] at hn first rest
  rw [word]
  refine (runs_take (by rw [word]; rfl)).bind (condition_runs opening condition closing ?_ ?_)
  · simp only [List.cons_append, List.length_append, List.length_cons]
    omega
  refine (first (by omega) fun hd => absurd (closed.symm.trans hd) (by simp)).bind ?_
  exact runs_ifTakeIf other rfl (Runs.bind_none (rest (by omega)))

section

variable {m k : Token} {x y : List Token} {init condition update : Option Expr}

theorem forInit (word : t.kind = .forWord) (opening : l.kind = .leftParen)
    (valid : ∀ x ∈ init, x.Valid) (unfaithful : init.all Expr.faithful = false)
    (h : w.map Token.symbol = Expr.symbolsOr init) : StmtRejects file (t :: l :: w) := by
  apply of_rest
  intro n us hn
  apply runs_token.bind
  rw [word]
  simp only [List.cons_append, List.length_cons] at hn
  refine (runs_take (by rw [word]; rfl)).bind ((runs_expect opening rfl).bind (Runs.bind_none ?_))
  exact Expr.rejected_or valid unfaithful h (by simp) (by omega)

theorem forCondition (word : t.kind = .forWord) (opening : l.kind = .leftParen)
    (first : IsOptional w init) (initEnd : m.kind = .semicolon)
    (valid : ∀ x ∈ condition, x.Valid) (unfaithful : condition.all Expr.faithful = false)
    (h : x.map Token.symbol = Expr.symbolsOr condition) :
    StmtRejects file (t :: l :: w ++ m :: x) := by
  apply of_rest (w := l :: w ++ m :: x)
  intro n us hn
  simp only [List.append_assoc, List.cons_append, List.length_append, List.length_cons] at hn ⊢
  apply runs_token.bind
  rw [word]
  refine (runs_take (by rw [word]; rfl)).bind ((runs_expect opening rfl).bind ?_)
  refine Runs.bind (first.runs (by simp) initEnd ?_) ((runs_expect initEnd rfl).bind
    (Runs.bind_none (Expr.rejected_or valid unfaithful h (by simp) ?_))) <;>
    simp only [List.length_append, List.length_cons] <;> omega

theorem forUpdate (word : t.kind = .forWord) (opening : l.kind = .leftParen)
    (first : IsOptional w init) (initEnd : m.kind = .semicolon) (second : IsOptional x condition)
    (conditionEnd : k.kind = .semicolon) (valid : ∀ x ∈ update, x.Valid)
    (unfaithful : update.all Expr.faithful = false)
    (h : y.map Token.symbol = Expr.symbolsOr update) :
    StmtRejects file (t :: l :: w ++ m :: x ++ k :: y) := by
  apply of_rest (w := l :: w ++ m :: x ++ k :: y)
  intro n us hn
  simp only [List.append_assoc, List.cons_append, List.length_append, List.length_cons] at hn ⊢
  apply runs_token.bind
  rw [word]
  refine (runs_take (by rw [word]; rfl)).bind ((runs_expect opening rfl).bind ?_)
  refine Runs.bind (first.runs (by simp) initEnd ?_) ((runs_expect initEnd rfl).bind
    (Runs.bind (second.runs (by simp) conditionEnd ?_) ((runs_expect conditionEnd rfl).bind
      (Runs.bind_none (Expr.rejected_or valid unfaithful h (by simp) ?_))))) <;>
    simp only [List.length_append, List.length_cons] <;> omega

theorem forBody (word : t.kind = .forWord) (opening : l.kind = .leftParen)
    (first : IsOptional w init) (initEnd : m.kind = .semicolon) (second : IsOptional x condition)
    (conditionEnd : k.kind = .semicolon) (third : IsOptional y update)
    (closing : r.kind = .rightParen) (h : StmtRejects file u) :
    StmtRejects file (t :: l :: w ++ m :: x ++ k :: y ++ r :: u) := by
  apply of_rest (w := l :: w ++ m :: x ++ k :: y ++ r :: u)
  intro n us hn
  simp only [List.append_assoc, List.cons_append, List.length_append, List.length_cons] at hn ⊢
  apply runs_token.bind
  rw [word]
  refine (runs_take (by rw [word]; rfl)).bind ((runs_expect opening rfl).bind ?_)
  refine Runs.bind (first.runs (by simp) initEnd ?_) ((runs_expect initEnd rfl).bind
    (Runs.bind (second.runs (by simp) conditionEnd ?_) ((runs_expect conditionEnd rfl).bind
      (Runs.bind (third.runs (by simp) closing ?_) ((runs_expect closing rfl).bind
        (Runs.bind_none (h n us ?_))))))) <;>
    simp only [List.length_append, List.length_cons] <;> omega

end

end StmtRejects

theorem Stmt.settled_of_bare {s s' : Stmt} (same : s'.bare = s.bare) (h : s.settled = true) :
    s'.settled = true := by
  rw [← s'.settled_bare, same, s.settled_bare, h]

theorem Stmt.dangles_of_bare {s s' : Stmt} (same : s'.bare = s.bare) : s'.dangles = s.dangles := by
  rw [← s'.dangles_bare, same, s.dangles_bare]

/-- What a list of statements begins with does not end it. -/
theorem stmtStarts_open {t : Token} (h : t.kind ∈ stmtStarts) :
    t.kind ≠ .rightBrace ∧ t.kind ≠ .endOfFile ∧ t.kind ≠ .elseWord := by
  refine ⟨?_, ?_, ?_⟩ <;> intro hk <;> rw [hk] at h <;> exact absurd h (by decide)

theorem Stmt.exists_first_all {ss : List Stmt} (unfaithful : Stmt.allFaithful ss = false)
    {w : List Token} (h : w.map Token.symbol = Stmt.symbolsAll ss) :
    ∃ t v, w = t :: v ∧ t.kind ∈ stmtStarts := by
  cases ss with
  | nil => cases unfaithful
  | cons s ss =>
    simp only [symbolsAll, List.map_eq_append_iff] at h
    obtain ⟨w, u, rfl, hw, _⟩ := h
    obtain ⟨t, v, rfl, first⟩ := Stmt.exists_first hw
    exact ⟨t, v ++ u, rfl, first⟩

mutual

theorem Stmt.rejected {s : Stmt} (valid : s.Valid) (settled : s.settled = true)
    (unfaithful : s.faithful = false) {w : List Token} (h : w.map Token.symbol = s.symbols) :
    StmtRejects file w := by
  match s with
  | .break _ => cases unfaithful
  | .block _ _ body =>
    simp only [symbols, List.cons_append, List.map_eq_append_iff, List.map_eq_cons_iff] at h
    obtain ⟨l, _, rfl, hl, u, v, rfl, hu, _⟩ := h
    refine .block (kind_of_symbol hl) fun n k us hn hk => ?_
    rw [List.append_assoc] at hn hk ⊢
    exact Stmt.rejected_all valid settled unfaithful hu hn hk
  | .declare _ name init =>
    simp only [symbols, List.cons_append, List.map_eq_append_iff, List.map_eq_cons_iff] at h
    obtain ⟨t, _, rfl, ht, n, _, rfl, hn, a, _, rfl, ha, u, v, rfl, hu, _⟩ := h
    exact .declare (kind_of_symbol ht) (kind_of_symbol hn) (kind_of_symbol ha)
      ((Expr.rejected_whole valid.2 unfaithful hu).append v)
  | .expr _ e =>
    simp only [symbols, List.map_eq_append_iff] at h
    obtain ⟨u, v, rfl, hu, _⟩ := h
    have rejected : Rejects file u .expression :=
      Expr.rejected_whole (e := e) valid unfaithful hu
    obtain ⟨t, u, rfl, first, _⟩ := Expr.exists_first hu
    exact .expr first (rejected.append v)
  | .return _ value =>
    simp only [symbols, List.cons_append, List.map_eq_append_iff, List.map_eq_cons_iff] at h
    obtain ⟨t, _, rfl, ht, u, v, rfl, hu, _⟩ := h
    exact (StmtRejects.return (kind_of_symbol ht) valid unfaithful hu).append v
  | .ifThen _ condition consequent =>
    simp only [Stmt.faithful, Bool.and_eq_false_iff] at unfaithful
    simp only [symbols, List.cons_append, List.map_eq_append_iff, List.map_eq_cons_iff] at h
    obtain ⟨t, _, rfl, ht, l, _, rfl, hl, u, _, rfl, hu, r, v, rfl, hr, hv⟩ := h
    refine .of_condition (.inl (kind_of_symbol ht)) (kind_of_symbol hl) valid.1 hu
      (kind_of_symbol hr) fun hf => ?_
    exact Stmt.rejected valid.2 settled (unfaithful.resolve_left (by simp [hf])) hv
  | .ifElse _ condition consequent alternative =>
    simp only [Stmt.settled, Bool.and_eq_true, Bool.not_eq_true'] at settled
    obtain ⟨⟨closed, hs⟩, ha⟩ := settled
    simp only [symbols, List.cons_append, List.append_assoc, List.map_eq_append_iff,
      List.map_eq_cons_iff] at h
    obtain ⟨t, _, rfl, ht, l, _, rfl, hl, u, _, rfl, hu, r, _, rfl, hr, v, _, rfl, hv, o, x, rfl,
      ho, hx⟩ := h
    cases hg : consequent.faithful with
    | false =>
      exact .of_condition (.inl (kind_of_symbol ht)) (kind_of_symbol hl) valid.1 hu
        (kind_of_symbol hr) fun _ => (Stmt.rejected valid.2.1 hs hg hv).append _
    | true =>
      cases hf : condition.faithful with
      | false =>
        exact .condition (.inl (kind_of_symbol ht)) (kind_of_symbol hl)
          ((Expr.rejected_whole valid.1 hf hu).append _)
      | true =>
        obtain ⟨e', he, _⟩ := Expr.reread_whole valid.1 hf hu
        obtain ⟨s', hs', same⟩ := Stmt.reread valid.2.1 hg hv
        have last : alternative.faithful = false := by
          simpa [Stmt.faithful, hf, hg] using unfaithful
        have whole := StmtRejects.alternative (kind_of_symbol ht) (kind_of_symbol hl) he
          (kind_of_symbol hr) (hs'.runs (Stmt.settled_of_bare same hs))
          ((Stmt.dangles_of_bare same).trans closed) (kind_of_symbol ho)
          (Stmt.rejected valid.2.2 ha last hx)
        simpa only [List.cons_append, List.append_assoc] using whole
  | .while _ condition body =>
    simp only [Stmt.faithful, Bool.and_eq_false_iff] at unfaithful
    simp only [symbols, List.cons_append, List.map_eq_append_iff, List.map_eq_cons_iff] at h
    obtain ⟨t, _, rfl, ht, l, _, rfl, hl, u, _, rfl, hu, r, v, rfl, hr, hv⟩ := h
    refine .of_condition (.inr (kind_of_symbol ht)) (kind_of_symbol hl) valid.1 hu
      (kind_of_symbol hr) fun hf => ?_
    exact Stmt.rejected valid.2 settled (unfaithful.resolve_left (by simp [hf])) hv
  | .for _ init condition update body =>
    simp only [symbols, List.cons_append, List.append_assoc, List.map_eq_append_iff,
      List.map_eq_cons_iff] at h
    obtain ⟨t, _, rfl, ht, l, _, rfl, hl, x, _, rfl, hx, m, _, rfl, hm, y, _, rfl, hy, k, _, rfl,
      hk, z, _, rfl, hz, r, v, rfl, hr, hv⟩ := h
    cases hi : init.all Expr.faithful with
    | false =>
      exact (StmtRejects.forInit (kind_of_symbol ht) (kind_of_symbol hl) valid.1 hi hx).append _
    | true =>
      obtain ⟨i', first, _⟩ := Expr.reread_or valid.1 hi hx
      cases hc : condition.all Expr.faithful with
      | false =>
        have header : StmtRejects file (t :: l :: x ++ m :: y) :=
          .forCondition (kind_of_symbol ht) (kind_of_symbol hl) first (kind_of_symbol hm) valid.2.1
            hc hy
        simpa only [List.cons_append, List.append_assoc] using header.append (k :: (z ++ r :: v))
      | true =>
        obtain ⟨c', second, _⟩ := Expr.reread_or valid.2.1 hc hy
        cases hu : update.all Expr.faithful with
        | false =>
          have header : StmtRejects file (t :: l :: x ++ m :: y ++ k :: z) :=
            .forUpdate (kind_of_symbol ht) (kind_of_symbol hl) first (kind_of_symbol hm) second
              (kind_of_symbol hk) valid.2.2.1 hu hz
          simpa only [List.cons_append, List.append_assoc] using header.append (r :: v)
        | true =>
          obtain ⟨u', third, _⟩ := Expr.reread_or valid.2.2.1 hu hz
          have repeated : body.faithful = false := by
            simpa [Stmt.faithful, hi, hc, hu] using unfaithful
          have whole := StmtRejects.forBody (kind_of_symbol ht) (kind_of_symbol hl) first
            (kind_of_symbol hm) second (kind_of_symbol hk) third (kind_of_symbol hr)
            (Stmt.rejected valid.2.2.2 settled repeated hv)
          simpa only [List.cons_append, List.append_assoc] using whole

/-- The statements before the first that is rejected are read. -/
theorem Stmt.rejected_all {ss : List Stmt} (valid : Stmt.AllValid ss)
    (settled : Stmt.allSettled ss = true) (unfaithful : Stmt.allFaithful ss = false)
    {w : List Token} (h : w.map Token.symbol = Stmt.symbolsAll ss) {n k : Nat} {us : List Token}
    (hn : (w ++ us).length ≤ n) (hk : (w ++ us).length ≤ k) :
    Runs file (untilBrace (statement n) k) (w ++ us) none := by
  match ss with
  | [] => cases unfaithful
  | s :: ss =>
    simp only [Stmt.allSettled, Bool.and_eq_true] at settled
    simp only [symbolsAll, List.map_eq_append_iff] at h
    obtain ⟨w, u, rfl, hw, hu⟩ := h
    rw [List.append_assoc] at hn hk ⊢
    cases hf : s.faithful with
    | false =>
      have rejected := Stmt.rejected valid.1 settled.1 hf hw n (u ++ us) hn
      obtain ⟨t, w, rfl, first⟩ := Stmt.exists_first hw
      obtain ⟨noBrace, more, _⟩ := stmtStarts_open first
      exact untilBrace_first noBrace more hk rejected
    | true =>
      have rest : Stmt.allFaithful ss = false := by
        simpa [Stmt.allFaithful, hf] using unfaithful
      obtain ⟨s', hs, same⟩ := Stmt.reread valid.1 hf hw
      have read : StmtRuns file w s' := hs.runs (Stmt.settled_of_bare same settled.1)
      obtain ⟨t, w, rfl, first⟩ := Stmt.exists_first hw
      obtain ⟨noBrace, more, _⟩ := stmtStarts_open first
      have len : (u ++ us).length ≤ n := by
        simp only [List.length_append] at hn ⊢
        omega
      have rejected (k : Nat) (hk : (u ++ us).length ≤ k) :
          Runs file (untilBrace (statement n) k) (u ++ us) none :=
        Stmt.rejected_all valid.2 settled.2 rest hu len hk
      -- That the statement is read depends on no `else` after it, and so on what comes next.
      obtain ⟨c, x, rfl, next⟩ := Stmt.exists_first_all rest hu
      have noElse := (stmtStarts_open next).2.2
      exact untilBrace_later noBrace more hk (read n c (x ++ us) hn fun _ => noElse) rejected

end

end BantamSyntax
