import BantamSyntax.Proofs.Parsing.Derivation
import BantamSyntax.Proofs.Parsing.Running

/-!
# Edges of expressions

What expressions begin with, and what ends them; lists of things that are read up to their ends.
-/
namespace BantamSyntax
namespace Grammar

open BantamSyntax.Parser

variable {file : String} {t : Token} {us : List Token} {n : Nat}

/-! ## lists -/

section

variable {α : Type} {item : ParserM α} {r : Token}

theorem items_runs {items : List (Piece α)} (closing : r.kind = .rightParen)
    (hi : ∀ i ∈ items, ∀ t us, (i.tokens ++ t :: us).length ≤ n →
      t.kind = .comma ∨ t.kind = .rightParen →
      Runs file item (i.tokens ++ t :: us) (some (i.tree, t :: us)))
    (ne : items ≠ []) {w : List Token} (hs : Separated (items.map (·.tokens)) w) (k : Nat)
    (hk : (w ++ r :: us).length ≤ k) (hn : (w ++ r :: us).length ≤ n) :
    Runs file (do
      let x ← item
      let xs ← afterCommas item k
      return x :: xs) (w ++ r :: us) (some (items.map (·.tree), r :: us)) := by
  induction items generalizing w k with
  | nil => exact absurd rfl ne
  | cons i items ih =>
    cases k with
    | zero => simp at hk
    | succ k =>
      cases items with
      | nil =>
        cases hs
        apply (hi i (by simp) r us hn (.inr closing)).bind
        exact (runs_ifTakeIf_not (by simp [closing]) (runs_pure [])).bind (runs_pure _)
      | cons j items =>
        cases hs with
        | @cons _ _ u _ c comma rest =>
          rw [List.append_assoc] at hk hn ⊢
          apply (hi i (by simp) c _ hn (.inl comma)).bind
          simp only [List.length_append, List.length_cons, List.cons_append] at hk hn
          refine Runs.bind (runs_ifTakeIf comma rfl (ih (fun m hm => hi m (by simp [hm])) (by simp)
            rest k ?_ ?_)) (runs_pure _) <;> simp only [List.length_append, List.length_cons] <;>
            omega

theorem commaList_runs {items : List (Piece α)} {steps : Nat} (closing : r.kind = .rightParen)
    (hi : ∀ i ∈ items, ∀ t us, (i.tokens ++ t :: us).length ≤ n →
      t.kind = .comma ∨ t.kind = .rightParen →
      Runs file item (i.tokens ++ t :: us) (some (i.tree, t :: us)))
    (first : ∀ i ∈ items, ∃ t w, i.tokens = t :: w ∧ t.kind ≠ .rightParen) {w : List Token}
    (hs : Separated (items.map (·.tokens)) w) (hk : (w ++ r :: us).length ≤ steps)
    (hn : (w ++ r :: us).length ≤ n) :
    Runs file (commaList steps item) (w ++ r :: us) (some (items.map (·.tree), r :: us)) := by
  cases items with
  | nil =>
    cases hs
    exact runs_ifCheck closing (runs_pure [])
  | cons i items =>
    have begins : ∃ t v, w = t :: v ∧ t.kind ≠ .rightParen := by
      obtain ⟨t, v, ht, hr⟩ := first i (by simp)
      cases items with
      | nil =>
        cases hs
        exact ⟨t, v, ht, hr⟩
      | cons j items =>
        cases hs with
        | cons => exact ⟨t, _, congrArg (· ++ _) ht, hr⟩
    obtain ⟨t, v, rfl, open_⟩ := begins
    exact runs_ifCheck_not open_ (items_runs closing hi (by simp) hs steps hk hn)

/-- What comes after an item is left to the rule for more of them. -/
theorem untilBrace_cons {x : α} {o : Option (List α × List Token)} {ts : List Token} {k : Nat}
    (noBrace : t.kind ≠ .rightBrace) (more : t.kind ≠ .endOfFile)
    (hx : Runs file item (t :: ts) (some (x, us)))
    (hr : Runs file (do
      let xs ← untilBrace item k
      return x :: xs) us o) : Runs file (untilBrace item (k + 1)) (t :: ts) o :=
  runs_ifCheck_not noBrace (runs_ifCheck_not more (hx.bind hr))

/-- A list is rejected with its first item. -/
theorem untilBrace_first {ts : List Token} {k : Nat} (noBrace : t.kind ≠ .rightBrace)
    (more : t.kind ≠ .endOfFile) (hk : (t :: ts).length ≤ k) (h : Runs file item (t :: ts) none) :
    Runs file (untilBrace item k) (t :: ts) none := by
  cases k with
  | zero => simp at hk
  | succ k => exact runs_ifCheck_not noBrace (runs_ifCheck_not more h.bind_none)

/-- A list is rejected with the items after its first. -/
theorem untilBrace_later {x : α} {w : List Token} {k : Nat} (noBrace : t.kind ≠ .rightBrace)
    (more : t.kind ≠ .endOfFile) (hk : (t :: w ++ us).length ≤ k)
    (hx : Runs file item (t :: w ++ us) (some (x, us)))
    (h : ∀ k, us.length ≤ k → Runs file (untilBrace item k) us none) :
    Runs file (untilBrace item k) (t :: w ++ us) none := by
  cases k with
  | zero => simp at hk
  | succ k =>
    simp only [List.cons_append, List.length_cons, List.length_append] at hk
    exact untilBrace_cons noBrace more hx (h k (by omega)).bind_none

/-- The token after an item begins the next one, or is the closing brace. -/
theorem untilBrace_runs {items : List (Piece α)} {F : Token → Prop} (closing : r.kind = .rightBrace)
    (last : F r)
    (hi : ∀ i ∈ items, ∀ t us, (i.tokens ++ t :: us).length ≤ n → F t →
      Runs file item (i.tokens ++ t :: us) (some (i.tree, t :: us)))
    (first : ∀ i ∈ items, ∃ t w, i.tokens = t :: w ∧ F t ∧ t.kind ≠ .rightBrace ∧
      t.kind ≠ .endOfFile) (k : Nat) (hk : (items.flatMap (·.tokens) ++ r :: us).length ≤ k)
    (hn : (items.flatMap (·.tokens) ++ r :: us).length ≤ n) :
    Runs file (untilBrace item k) (items.flatMap (·.tokens) ++ r :: us)
      (some (items.map (·.tree), r :: us)) := by
  induction items generalizing k with
  | nil =>
    cases k with
    | zero => simp at hk
    | succ k => exact runs_ifCheck closing (runs_pure [])
  | cons i items ih =>
    cases k with
    | zero => simp at hk
    | succ k =>
      obtain ⟨t, w, ht, _, noBrace, more⟩ := first i (by simp)
      have next : ∃ c vs, items.flatMap (·.tokens) ++ r :: us = c :: vs ∧ F c := by
        cases items with
        | nil => exact ⟨r, us, rfl, last⟩
        | cons j items =>
          obtain ⟨c, v, hc, hF, _⟩ := first j (by simp)
          exact ⟨c, _, by rw [List.flatMap_cons, hc]; rfl, hF⟩
      obtain ⟨c, vs, hvs, hF⟩ := next
      have run := hi i (by simp) c vs
      have rest := ih (fun m hm => hi m (by simp [hm])) (fun m hm => first m (by simp [hm])) k
      rw [List.flatMap_cons, List.append_assoc] at hk hn ⊢
      rw [hvs] at hk hn rest ⊢
      rw [ht] at hk hn run ⊢
      apply untilBrace_cons noBrace more (run hn hF)
      simp only [List.length_append, List.length_cons] at hk hn
      exact (rest (by simp only [List.length_cons]; omega)
        (by simp only [List.length_cons]; omega)).bind (runs_pure _)

end

/-! ## first tokens -/

/-- The kinds of tokens that an expression at the place can begin with. -/
def Place.starts : Place → List TokenKind
  | .primary | .suffixed => [.leftParen, .identifier, .integer, .boolean, .string]
  | .signed =>
    [.additive, .negation, .increment, .decrement] ++
      [.leftParen, .identifier, .integer, .boolean, .string]
  | .level _ | .expression =>
    [.newWord, .castWord] ++ [.additive, .negation, .increment, .decrement] ++
      [.leftParen, .identifier, .integer, .boolean, .string]

theorem IsVariable.first {w : List Token} {v : Variable} (h : IsVariable (t :: w) v) :
    t.kind = .identifier := by
  cases h <;> assumption

theorem mem_starts_of_constantKind? {kind : TokenKind} {k : ConstantKind}
    (h : constantKind? kind = some k) : kind ∈ Place.primary.starts := by
  cases kind <;> first | decide | cases h

theorem mem_starts_of_signOp? {op : UnaryOp} (h : signOp? t = some op) :
    t.kind ∈ Place.signed.starts := by
  unfold signOp? at h
  split at h
  all_goals first | cases h; done | simp [Place.starts, *]

theorem IsExpr.first {p : Place} {w : List Token} {e : Expr} (h : IsExpr p (t :: w) e) :
    t.kind ∈ p.starts := by
  generalize hw : t :: w = u at h
  induction h generalizing t w with
  | assign target =>
    obtain ⟨rfl, _⟩ := List.cons.inj hw
    rw [target.first]
    decide
  | plain _ ih | operand _ ih | unsuffixed _ ih => exact ih hw
  | binary _ _ _ ih =>
    obtain ⟨rfl, _⟩ := List.cons.inj hw
    exact ih rfl
  | new word =>
    obtain ⟨rfl, _⟩ := List.cons.inj hw
    rw [word]
    decide
  | cast word =>
    obtain ⟨rfl, _⟩ := List.cons.inj hw
    rw [word]
    decide
  | unary _ ih => exact List.mem_append_right [.newWord, .castWord] (ih hw)
  | sign operator =>
    obtain ⟨rfl, _⟩ := List.cons.inj hw
    exact mem_starts_of_signOp? operator
  | unsigned _ ih =>
    exact List.mem_append_right [.additive, .negation, .increment, .decrement] (ih hw)
  | suffix _ _ ih =>
    obtain ⟨rfl, _⟩ := List.cons.inj hw
    exact ih rfl
  | parens opening =>
    obtain ⟨rfl, _⟩ := List.cons.inj hw
    rw [opening]
    decide
  | constant h =>
    obtain ⟨rfl, _⟩ := List.cons.inj hw
    exact mem_starts_of_constantKind? h
  | var h =>
    subst hw
    rw [h.first]
    decide
  | call method =>
    obtain ⟨rfl, _⟩ := List.cons.inj hw
    rw [method.first]
    decide

/-! ## tokens that end expressions -/

/-- The token is none that a variable goes on with. -/
def EndsVariable (t : Token) : Prop :=
  t.kind ≠ .leftParen ∧ t.kind ≠ .dot

/-- The token is none that an operand goes on with, or the levels. -/
structure EndsLevels (ls : List Level) (t : Token) : Prop where
  variable_ended : EndsVariable t
  noSuffix : suffixOp? t.kind = none
  noOperator : ∀ l ∈ ls, l.op? t = none

/-- No rule goes on with the token after an expression at the place. -/
def Place.Ends (t : Token) : Place → Prop
  | .primary => EndsVariable t
  | .suffixed | .signed => EndsLevels [] t
  | .level ls => EndsLevels ls t
  | .expression => EndsLevels Level.all t ∧ t.kind ≠ .assign

theorem EndsLevels.of_suffix {ls ms : List Level} (h : ls <:+ ms) (he : EndsLevels ms t) :
    EndsLevels ls t :=
  ⟨he.variable_ended, he.noSuffix, fun l hl => he.noOperator l (h.subset hl)⟩

theorem endsLevels_of_punctuator {ls : List Level} (h : t.kind.isOperator = false)
    (hv : EndsVariable t) : EndsLevels ls t := by
  refine ⟨hv, ?_, fun l _ => by simp [Level.op?, h]⟩
  revert h
  cases t.kind <;> simp [TokenKind.isOperator, TokenKind.operators, suffixOp?]

/-- What stands after an expression in a statement or a list ends it. -/
theorem ends_expression (h : t.kind ∈ [TokenKind.rightParen, .comma, .semicolon]) :
    Place.expression.Ends t := by
  simp only [List.mem_cons, List.not_mem_nil, or_false] at h
  refine ⟨endsLevels_of_punctuator ?_ ⟨?_, ?_⟩, ?_⟩ <;> rcases h with h | h | h <;> rw [h] <;>
    first | rfl | decide

theorem Level.op?_eq_none {l : Level} (h : t.spelling ∉ l.operators.map (·.1)) :
    l.op? t = none := by
  cases ho : l.op? t with
  | none => rfl
  | some op => exact absurd (spelling_of_op? ho).2 h

/-- No two levels share an operator, and none has one that is no binary operator. -/
theorem Level.all_disjoint :
    Level.all.Pairwise (fun l m => ∀ s ∈ l.operators.map (·.1), s ∉ m.operators.map (·.1)) ∧
      ∀ l ∈ Level.all, ∀ s ∈ ["=", "++", "--"], s ∉ l.operators.map (·.1) := by
  decide

theorem endsLevels_of_op? {l : Level} {ls : List Level} {op : BinaryOp}
    (hs : l :: ls <:+ Level.all) (ho : l.op? t = some op) (hg : t.Genuine) : EndsLevels ls t := by
  obtain ⟨operator, spelled⟩ := Level.spelling_of_op? ho
  have hl : l ∈ Level.all := hs.subset (by simp)
  refine ⟨⟨fun h => ?_, fun h => ?_⟩, ?_, fun m hm => Level.op?_eq_none ?_⟩
  · rw [h] at operator
    cases operator
  · rw [h] at operator
    cases operator
  · cases hk : t.kind with
    | increment => exact absurd (hg.increment hk ▸ spelled) (Level.all_disjoint.2 l hl _ (by simp))
    | decrement => exact absurd (hg.decrement hk ▸ spelled) (Level.all_disjoint.2 l hl _ (by simp))
    | _ => rfl
  · have := Level.all_disjoint.1.sublist hs.sublist
    exact (List.pairwise_cons.1 this).1 m hm _ spelled

theorem endsLevels_of_assign (h : t.kind = .assign) (hg : t.Genuine) : EndsLevels Level.all t := by
  refine ⟨⟨by simp [h], by simp [h]⟩, by simp [h, suffixOp?], fun l hl => Level.op?_eq_none ?_⟩
  rw [hg.assign h]
  exact Level.all_disjoint.2 l hl _ (by simp)

end Grammar
end BantamSyntax
