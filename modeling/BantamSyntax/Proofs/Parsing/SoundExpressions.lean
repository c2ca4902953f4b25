import BantamSyntax.Proofs.Parsing.Derivation
import BantamSyntax.Proofs.Parsing.Running

/-!
# Soundness of the rules for expressions

What a rule reads is derived in the grammar as the tree that the rule gives. A rule with a step for
each token does not run out of steps.
-/
namespace BantamSyntax
namespace Grammar

open BantamSyntax.Parser

variable {file : String} {ts : List Token} {t : Token} {n : Nat}

/-! ## lists -/

/-- Items with commas between them. -/
def IsCommaList {α : Type} (P : List Token → α → Prop) (w : List Token) (xs : List α) : Prop :=
  ∃ items : List (Piece α), xs = items.map (·.tree) ∧ (∀ i ∈ items, P i.tokens i.tree) ∧
    Separated (items.map (·.tokens)) w

/-- Items one after another. -/
def IsRow {α : Type} (P : List Token → α → Prop) (w : List Token) (xs : List α) : Prop :=
  ∃ items : List (Piece α), xs = items.map (·.tree) ∧ (∀ i ∈ items, P i.tokens i.tree) ∧
    w = items.flatMap (·.tokens)

section

variable {α : Type} {P : List Token → α → Prop} {item : ParserM α}

theorem IsCommaList.one {w : List Token} {x : α} (h : P w x) : IsCommaList P w [x] :=
  ⟨[⟨w, x⟩], rfl, by simpa using h, .one⟩

theorem IsCommaList.cons {v w : List Token} {x y : α} {ys : List α} (hx : P v x)
    (comma : t.kind = .comma) (h : IsCommaList P w (y :: ys)) :
    IsCommaList P (v ++ t :: w) (x :: y :: ys) := by
  obtain ⟨items, trees, hi, hs⟩ := h
  cases items with
  | nil => cases trees
  | cons i items =>
    exact ⟨⟨v, x⟩ :: i :: items, by rw [trees]; rfl, List.forall_mem_cons.2 ⟨hx, hi⟩,
      .cons comma hs⟩

theorem IsRow.nil : IsRow P [] [] :=
  ⟨[], rfl, by simp, rfl⟩

theorem IsRow.cons {w u : List Token} {x : α} {xs : List α} (hx : P w x) (h : IsRow P u xs) :
    IsRow P (w ++ u) (x :: xs) := by
  obtain ⟨items, rfl, hi, rfl⟩ := h
  exact ⟨⟨w, x⟩ :: items, rfl, List.forall_mem_cons.2 ⟨hx, hi⟩, rfl⟩

theorem afterCommas_reads (hi : ∀ us, us.length ≤ n → Reads file item us fun w a _ => P w a)
    (k : Nat) (ts : List Token) (hk : ts.length ≤ k) (hn : ts.length ≤ n + 1) :
    Reads file (afterCommas item k) ts fun w xs _ =>
      ∀ v x, P v x → IsCommaList P (v ++ w) (x :: xs) := by
  induction k generalizing ts with
  | zero => exact .of_cons fun t us e => by simp [e] at hk
  | succ k ih =>
    refine .of_cons fun t us e => ?_
    subst e
    simp only [List.length_cons] at hk hn
    refine .ifTakeIf rfl (fun comma => ?_) fun _ => ?_
    · refine .bind (hi us (by omega)) fun w x vs e hx => ?_
      have := congrArg List.length e
      simp only [List.length_append] at this
      refine .bind (ih vs (by omega) (by omega)) fun u xs _ _ hxs => .pure fun v y hy => ?_
      rw [List.append_nil]
      exact .cons hy comma (hxs w x hx)
    · refine .pure fun v y hy => ?_
      rw [List.append_nil]
      exact .one hy

theorem commaList_reads (hi : ∀ us, us.length ≤ n → Reads file item us fun w a _ => P w a)
    {steps : Nat} (hs : ts.length ≤ steps) (hn : ts.length ≤ n) :
    Reads file (commaList steps item) ts fun w xs _ => IsCommaList P w xs := by
  refine .of_cons fun t us e => ?_
  subst e
  refine .ifCheck (fun _ => .pure ⟨[], rfl, by simp, .nil⟩) fun _ => ?_
  refine .bind (hi _ hn) fun w x vs e hx => ?_
  have := congrArg List.length e
  simp only [List.length_append] at this
  refine .bind (afterCommas_reads hi steps vs (by omega) (by omega)) fun u xs _ _ hxs => ?_
  exact .pure (by rw [List.append_nil]; exact hxs w x hx)

/-- An item takes some tokens, so that the steps are enough for the items there are. -/
theorem untilBrace_reads (hi : ∀ us, us.length ≤ n → Reads file item us fun w a _ => P w a)
    (ne : ∀ w x, P w x → w ≠ []) (k : Nat) (hk : ts.length ≤ k) (hn : ts.length ≤ n) :
    Reads file (untilBrace item k) ts fun w xs _ => IsRow P w xs := by
  induction k generalizing ts with
  | zero => exact .of_cons fun t us e => by simp [e] at hk
  | succ k ih =>
    refine .of_cons fun t us e => ?_
    subst e
    refine .ifCheck (fun _ => .pure .nil) fun _ => .ifCheck (fun _ => .pure .nil) fun _ => ?_
    refine .bind (hi _ hn) fun w x vs e hx => ?_
    have := congrArg List.length e
    have := List.length_pos_iff.2 (ne w x hx)
    simp only [List.length_append, List.length_cons] at *
    refine .bind (@ih vs (by omega) (by omega)) fun u xs _ _ hxs => .pure ?_
    rw [List.append_nil]
    exact .cons hx hxs

end

/-! ## expressions -/

section

variable {x : ParserM Expr}

/-- The rule for whole expressions, which may be asked to read up to `n` tokens. -/
def ReadsExpr (file : String) (x : ParserM Expr) (n : Nat) (p : Place) : Prop :=
  ∀ us, us.length ≤ n → Reads file x us fun w e _ => IsExpr p w e

theorem callRest_reads (hx : ReadsExpr file x n .expression) {w : List Token} {v : Variable}
    (hv : IsVariable (t :: w) v) (hn : ts.length ≤ n + 1) :
    Reads file (callRest (n + 1) x t.line v.receiver? v.name) ts fun u e _ =>
      IsExpr .primary (t :: w ++ u) e := by
  refine .of_cons fun l us e => ?_
  subst e
  simp only [List.length_cons, Nat.add_le_add_iff_right] at hn
  refine .ifCheck (fun opening => ?_) fun _ => ?_
  · refine .take (by rw [opening]; rfl) ?_
    refine .bind (commaList_reads hx (by omega) hn) fun u es vs _ hes => ?_
    refine .expect rfl fun r _ _ closing => .pure ?_
    obtain ⟨items, rfl, hi, hs⟩ := hes
    have := IsExpr.call hv opening hi hs closing
    rwa [List.append_assoc] at this
  · have := IsExpr.var hv
    rw [← List.append_nil (t :: w)] at this
    cases hv with
    | plain => exact .pure this
    | qualified => exact .pure this

theorem variableOrCall_reads (hx : ReadsExpr file x n .expression) (name : t.kind = .identifier)
    {us : List Token} (hn : us.length ≤ n) :
    Reads file (variableOrCall (n + 1) x) (t :: us) fun w e _ => IsExpr .primary w e := by
  refine .take (by rw [name]; rfl) ?_
  by_cases known : t.spelling ∈ receivers
  · rw [if_pos known]
    refine .of_cons fun d vs e => ?_
    subst e
    simp only [List.length_cons] at hn
    refine .ifTakeIf rfl (fun dot => ?_) fun _ => ?_
    · refine .name fun m ws e member => ?_
      subst e
      simp only [List.length_cons] at hn
      exact callRest_reads hx (.qualified name known dot member) (by omega)
    · exact callRest_reads hx (.plain name) (by simp only [List.length_cons]; omega)
  · rw [if_neg known]
    exact callRest_reads hx (.plain name) (by omega)

theorem primary_reads (hx : ReadsExpr file x n .expression) :
    ReadsExpr file (primary (n + 1) x) (n + 1) .primary := by
  refine fun ts hn => .of_cons fun t us e => ?_
  subst e
  simp only [List.length_cons, Nat.add_le_add_iff_right] at hn
  refine .token ?_
  by_cases opening : t.kind = .leftParen
  · rw [if_pos opening]
    refine .advance (by rw [opening]; rfl) ?_
    refine .bind (hx us hn) fun w e vs _ he => .expect rfl fun r _ _ closing => .pure ?_
    exact .parens opening he closing
  rw [if_neg opening]
  split
  · rename_i kind h
    exact .advance (passes_of_constantKind? h) (.pure (.constant h))
  · by_cases name : t.kind = .identifier
    · rw [if_pos name]
      exact variableOrCall_reads hx name hn
    · rw [if_neg name]
      exact .fail

theorem suffixed_reads (hx : ReadsExpr file x n .expression) :
    ReadsExpr file (suffixed (n + 1) x) (n + 1) .suffixed := by
  refine fun ts hn => .of_cons fun t us e => ?_
  subst e
  refine .token (.bind (primary_reads hx _ hn) fun w e vs h he => .of_cons fun o _ e => ?_)
  subst e
  obtain ⟨t', w, rfl⟩ := List.exists_cons_of_ne_nil he.ne_nil
  obtain ⟨rfl, _⟩ := List.cons.inj h
  refine .token ?_
  split
  · rename_i op hop
    exact .advance (passes_of_suffixOp? hop) (.pure (.suffix he hop))
  · exact .pure (by rw [List.append_nil]; exact .unsuffixed he)

theorem signed_reads (hx : ReadsExpr file x n .expression) (k : Nat) (hk : ts.length ≤ k)
    (hn : ts.length ≤ n + 1) :
    Reads file (signed (n + 1) x k) ts fun w e _ => IsExpr .signed w e := by
  induction k generalizing ts with
  | zero => exact .of_cons fun t us e => by simp [e] at hk
  | succ k ih =>
    refine .of_cons fun t us e => ?_
    subst e
    refine .token ?_
    split
    · rename_i op hop
      simp only [List.length_cons] at hk hn
      refine .advance (passes_of_signOp? hop) ?_
      refine .bind (@ih us (by omega) (by omega)) fun w e vs _ he => .pure ?_
      rw [List.append_nil]
      exact .sign hop he
    · exact (suffixed_reads hx _ hn).imp fun w e vs _ he => .unsigned he

theorem newExpression_reads (word : t.kind = .newWord) {us : List Token} :
    Reads file newExpression (t :: us) fun w e _ => IsExpr (.level []) w e := by
  refine .take (by rw [word]; rfl) ?_
  refine .name fun c _ _ type => ?_
  refine .expect rfl fun l _ _ opening => .expect rfl fun r _ _ closing => .pure ?_
  exact .new word type opening closing

theorem castExpression_reads (hx : ReadsExpr file x n .expression) (word : t.kind = .castWord)
    {us : List Token} (hn : us.length ≤ n) :
    Reads file (castExpression x) (t :: us) fun w e _ => IsExpr (.level []) w e := by
  refine .take (by rw [word]; rfl) ?_
  refine .expect rfl fun l vs e opening => ?_
  subst e
  refine .name fun c ws e type => ?_
  subst e
  refine .expect rfl fun m xs e comma => ?_
  subst e
  simp only [List.length_cons] at hn
  refine .bind (hx xs (by omega)) fun w e _ _ he => .expect rfl fun r _ _ closing => .pure ?_
  exact .cast word opening type comma he closing

theorem unary_reads (hx : ReadsExpr file x n .expression) :
    ReadsExpr file (unary (n + 1) x) (n + 1) (.level []) := by
  refine fun ts hn => .of_cons fun t us e => ?_
  subst e
  refine .ifCheck (fun word => newExpression_reads word) fun _ => ?_
  refine .ifCheck (fun word => ?_) fun _ => ?_
  · exact castExpression_reads hx word (by simpa using hn)
  · exact (signed_reads hx _ hn hn).imp fun w e vs _ he => .unary he

theorem operands_reads {l : Level} {ls : List Level} {operand : ParserM Expr} {line : Int}
    (chain : l.chain = true) (ho : ReadsExpr file operand n (.level ls)) (k : Nat)
    (hk : ts.length ≤ k) (hn : ts.length ≤ n) {w : List Token} {left : Expr}
    (hl : IsExpr (.level (l :: ls)) (t :: w) left) (hline : line = t.line) :
    Reads file (operands l operand line k left) ts fun u e _ =>
      IsExpr (.level (l :: ls)) (t :: w ++ u) e := by
  induction k generalizing ts w left with
  | zero => exact .of_cons fun t us e => by simp [e] at hk
  | succ k ih =>
    refine .of_cons fun o us e => ?_
    subst e
    refine .token ?_
    split
    · rename_i op hop
      simp only [List.length_cons] at hk hn
      refine .advance (passes_of_op? hop) ?_
      refine .bind (ho us (by omega)) fun u right vs e hr => ?_
      have := congrArg List.length e
      simp only [List.length_append] at this
      have hb := IsExpr.binary (by rwa [if_pos chain]) hop hr
      apply (@ih vs (by omega) (by omega) _ _ (hline ▸ hb)).imp
      intro v e' _ _ he
      simpa using he
    · exact .pure (by rwa [List.append_nil])

theorem binary_reads {l : Level} {ls : List Level} {operand : ParserM Expr} {steps : Nat}
    (hs : n ≤ steps) (ho : ReadsExpr file operand n (.level ls)) :
    ReadsExpr file (binary l steps operand) n (.level (l :: ls)) := by
  refine fun ts hn => .of_cons fun t us e => ?_
  subst e
  refine .token (.bind (ho _ hn) fun w left vs h hl => ?_)
  have := congrArg List.length h
  simp only [List.length_append] at this
  obtain ⟨t', w, rfl⟩ := List.exists_cons_of_ne_nil hl.ne_nil
  obtain ⟨rfl, _⟩ := List.cons.inj h
  by_cases chain : l.chain = true
  · rw [if_pos chain]
    exact operands_reads chain ho steps (by omega) (by omega) (.operand hl) rfl
  rw [if_neg chain]
  refine .of_cons fun o us e => ?_
  subst e
  refine .token ?_
  split
  · rename_i op hop
    simp only [List.length_cons] at this hn
    refine .advance (passes_of_op? hop) ?_
    refine .bind (ho _ (by omega)) fun u right _ _ hr => .pure ?_
    rw [List.append_nil]
    exact .binary (by rwa [if_neg chain]) hop hr
  · exact .pure (by rw [List.append_nil]; exact .operand hl)

theorem cascade_reads (hx : ReadsExpr file x n .expression) (ls : List Level) :
    ReadsExpr file (cascade (n + 1) x ls) (n + 1) (.level ls) := by
  induction ls with
  | nil => exact unary_reads hx
  | cons l ls ih => exact binary_reads (Nat.le_refl _) ih

end

/-- A variable that does not begin with a parenthesis is in none. -/
theorem IsExpr.isVariable {p : Place} {w : List Token} {v : Variable}
    (h : IsExpr p (t :: w) (.var v)) (free : t.kind ≠ .leftParen) : IsVariable (t :: w) v := by
  generalize hw : t :: w = u at h
  generalize he : Expr.var v = e at h
  induction h with
  | plain _ ih | operand _ ih | unary _ ih | unsigned _ ih | unsuffixed _ ih => exact ih hw he
  | var h =>
    cases he
    exact h
  | parens opening =>
    obtain ⟨rfl, _⟩ := List.cons.inj hw
    exact absurd opening free
  | _ => cases he

theorem assignment_reads {x : ParserM Expr} (hx : ReadsExpr file x n .expression) :
    ReadsExpr file (assignment (n + 1) x) (n + 1) .expression := by
  refine fun ts hn => .of_cons fun t us e => ?_
  subst e
  refine .token (.bind (cascade_reads hx _ _ hn) fun w e vs h he => .of_cons fun a us e => ?_)
  subst e
  have := congrArg List.length h
  simp only [List.length_append, List.length_cons] at this hn
  obtain ⟨t', w, rfl⟩ := List.exists_cons_of_ne_nil he.ne_nil
  obtain ⟨rfl, _⟩ := List.cons.inj h
  refine .ifCheck (fun sign => ?_) fun _ => .pure (by rw [List.append_nil]; exact .plain he)
  split
  · rename_i v ht
    unfold target? at ht
    split at ht
    · split at ht
      · cases ht
      · cases ht
        simp only [List.length_cons] at this
        refine .advance (by rw [sign]; rfl)
          (.bind (hx us (by omega)) fun u value _ _ hv => .pure ?_)
        rw [List.append_nil]
        exact .assign (he.isVariable ‹_›) sign hv
    · cases ht
  · exact .fail

theorem expression_reads (n : Nat) : ReadsExpr file (expression n) n .expression := by
  induction n with
  | zero => exact fun ts hn => .of_cons fun t us e => by simp [e] at hn
  | succ n ih => exact assignment_reads ih

end Grammar
end BantamSyntax
