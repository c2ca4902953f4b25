import BantamSyntax.Proofs.Parsing.Edges

/-!
# Completeness of the rules for expressions

Tokens that the grammar derives are read as their tree, if the token after them is none that a rule
would go on with.
-/
namespace BantamSyntax
namespace Grammar

open BantamSyntax.Parser

variable {file : String} {t : Token} {us : List Token} {n : Nat}

/-! ## expressions -/

/-- The rule for expressions at a place; `k` steps are for signs. -/
def Place.rule (n k : Nat) : Place → ParserM Expr
  | .expression => Grammar.expression (n + 1)
  | .level ls => cascade (n + 1) (Grammar.expression n) ls
  | .signed => Grammar.signed (n + 1) (Grammar.expression n) k
  | .suffixed => Grammar.suffixed (n + 1) (Grammar.expression n)
  | .primary => Grammar.primary (n + 1) (Grammar.expression n)

/-- The rule for the place reads the tokens as the tree, whatever ends them. -/
def RunsTo (file : String) (w : List Token) (e : Expr) (p : Place) : Prop :=
  ∀ n k t us, (w ++ t :: us).length ≤ n + 1 → (w ++ t :: us).length ≤ k → p.Ends t →
    Runs file (p.rule n k) (w ++ t :: us) (some (e, t :: us))

section

variable {w : List Token} {e : Expr}

theorem RunsTo.suffixed (h : RunsTo file (t :: w) e .primary) :
    RunsTo file (t :: w) e .suffixed := by
  intro n k o us hn hk ends
  refine runs_token.bind ((h n k o us hn hk ends.variable_ended).bind (runs_token.bind ?_))
  rw [ends.noSuffix]
  exact runs_pure e

theorem RunsTo.signed (h : RunsTo file (t :: w) e .suffixed)
    (first : t.kind ∈ Place.suffixed.starts) : RunsTo file (t :: w) e .signed := by
  intro n k o us hn hk ends
  cases k with
  | zero => simp at hk
  | succ k =>
    have unsigned : signOp? t = none := by
      simp only [Place.starts, List.mem_cons, List.not_mem_nil, or_false] at first
      rcases first with h | h | h | h | h <;> simp [signOp?, h]
    apply runs_token.bind
    rw [unsigned]
    exact h n (k + 1) o us hn hk ends

theorem RunsTo.unary (h : RunsTo file (t :: w) e .signed) (first : t.kind ∈ Place.signed.starts) :
    RunsTo file (t :: w) e (.level []) := by
  intro n k o us hn hk ends
  refine runs_ifCheck_not (fun h => ?_) (runs_ifCheck_not (fun h => ?_) ?_)
  · rw [h] at first
    exact absurd first (by decide)
  · rw [h] at first
    exact absurd first (by decide)
  · exact h n (n + 1) o us hn hn ends

/-- The tokens are read up to where more operands of the level may follow. -/
def Chains (file : String) (w : List Token) (e : Expr) (l : Level) (ls : List Level) : Prop :=
  ∀ n f v t us o, w = f :: v → (w ++ t :: us).length ≤ n + 1 → EndsLevels ls t →
    (∀ k, (t :: us).length ≤ k →
      Runs file (operands l (cascade (n + 1) (Grammar.expression n) ls) f.line k e) (t :: us) o) →
    Runs file (cascade (n + 1) (Grammar.expression n) (l :: ls)) (w ++ t :: us) o

variable {l : Level} {ls : List Level}

theorem Chains.of_operand (chain : l.chain = true) (h : RunsTo file w e (.level ls)) :
    Chains file w e l ls := by
  rintro n f v t us o rfl hn ends hr
  refine runs_token.bind ((h n (n + 1) t us hn hn ends).bind ?_)
  rw [if_pos chain]
  apply hr (n + 1)
  simp only [List.length_append, List.length_cons] at hn ⊢
  omega

theorem Chains.runsTo (h : Chains file (t :: w) e l ls) :
    RunsTo file (t :: w) e (.level (l :: ls)) := by
  intro n k o us hn hk ends
  apply h n t w o us _ rfl hn (ends.of_suffix (List.suffix_cons l ls))
  intro k hk
  cases k with
  | zero => simp at hk
  | succ k =>
    apply runs_token.bind
    rw [ends.noOperator l (by simp)]
    exact runs_pure e

/-- The level adds nothing to its first operand before a token that is none of its operators. -/
theorem level_runs {x : ParserM Expr} {v : List Token} {o : Token} (hn : 0 < n)
    (hx : Runs file x (t :: v) (some (e, o :: us))) (noOperator : l.op? o = none) :
    Runs file (Grammar.binary l n x) (t :: v) (some (e, o :: us)) := by
  refine runs_token.bind (hx.bind ?_)
  by_cases chain : l.chain = true
  · rw [if_pos chain]
    cases n with
    | zero => cases hn
    | succ n =>
      apply runs_token.bind
      rw [noOperator]
      exact runs_pure e
  · rw [if_neg chain]
    apply runs_token.bind
    rw [noOperator]
    exact runs_pure e

theorem RunsTo.operand (h : RunsTo file (t :: w) e (.level ls)) :
    RunsTo file (t :: w) e (.level (l :: ls)) := by
  intro n k o us hn hk ends
  have ended := ends.of_suffix (List.suffix_cons l ls)
  exact level_runs (by omega) (h n (n + 1) o us hn hn ended) (ends.noOperator l (by simp))

theorem RunsTo.level (h : RunsTo file (t :: w) e (.level [])) (ls : List Level) :
    RunsTo file (t :: w) e (.level ls) := by
  induction ls with
  | nil => exact h
  | cons l ls ih => exact ih.operand

theorem RunsTo.expression (h : RunsTo file w e .expression) (hn : (w ++ t :: us).length ≤ n)
    (ends : Place.expression.Ends t) :
    Runs file (Grammar.expression n) (w ++ t :: us) (some (e, t :: us)) := by
  cases n with
  | zero => simp at hn
  | succ n => exact h n (n + 1) t us hn hn ends

theorem RunsTo.plain (h : RunsTo file (t :: w) e (.level Level.all)) :
    RunsTo file (t :: w) e .expression := by
  intro n k o us hn hk ends
  refine runs_token.bind ((h n (n + 1) o us hn hn ends.1).bind ?_)
  exact runs_ifCheck_not ends.2 (runs_pure e)

variable {o : Token} {u : List Token} {left right : Expr} {op : BinaryOp}

/-- The operator and the operand after it are read before the rule looks for more. -/
theorem operands_runs {operand : ParserM Expr} {line : Int} {k : Nat} {ts : List Token}
    {r : Option (Expr × List Token)} (hop : l.op? o = some op)
    (hr : Runs file operand ts (some (right, us)))
    (more : Runs file (operands l operand line k (.binary line op left right)) us r) :
    Runs file (operands l operand line (k + 1) left) (o :: ts) r := by
  apply runs_token.bind
  rw [hop]
  exact (runs_advance (passes_of_op? hop)).bind (hr.bind more)

theorem Chains.binary (hs : l :: ls <:+ Level.all) (hop : l.op? o = some op)
    (hl : Chains file (t :: w) left l ls) (hr : RunsTo file u right (.level ls)) :
    Chains file (t :: w ++ o :: u) (.binary t.line op left right) l ls := by
  rintro n f v c us r hv hn ends more
  obtain ⟨rfl, rfl⟩ := List.cons.inj hv
  have len : (u ++ c :: us).length ≤ n + 1 := by
    simp only [List.length_append, List.length_cons] at hn ⊢
    omega
  rw [List.append_assoc] at hn ⊢
  refine .of_genuine fun genuine => ?_
  refine hl n t w o (u ++ c :: us) r rfl hn (endsLevels_of_op? hs hop (genuine o (by simp)))
    fun k hk => ?_
  cases k with
  | zero => simp at hk
  | succ k =>
    refine operands_runs hop (hr n (n + 1) c us len len ends) (more k ?_)
    simp only [List.length_append, List.length_cons] at hk ⊢
    omega

theorem RunsTo.binary (hs : l :: ls <:+ Level.all) (single : l.chain = false)
    (hop : l.op? o = some op) (hl : RunsTo file (t :: w) left (.level ls))
    (hr : RunsTo file u right (.level ls)) :
    RunsTo file (t :: w ++ o :: u) (.binary t.line op left right) (.level (l :: ls)) := by
  intro n k c us hn hk ends
  have len : (u ++ c :: us).length ≤ n + 1 := by
    simp only [List.length_append, List.length_cons] at hn ⊢
    omega
  have ended := ends.of_suffix (List.suffix_cons l ls)
  rw [List.append_assoc] at hn ⊢
  refine .of_genuine fun genuine => runs_token.bind ?_
  refine (hl n (n + 1) o (u ++ c :: us) hn hn
    (endsLevels_of_op? hs hop (genuine o (by simp)))).bind ?_
  rw [if_neg (by simp [single])]
  apply runs_token.bind
  rw [hop]
  apply (runs_advance (passes_of_op? hop)).bind
  exact (hr n (n + 1) c us len len ended).bind (runs_pure _)

/-! ### parts of expressions -/

theorem RunsTo.sign {op : UnaryOp} (hop : signOp? t = some op) (h : RunsTo file w e .signed) :
    RunsTo file (t :: w) (.unary t.line op e) .signed := by
  intro n k c us hn hk ends
  cases k with
  | zero => simp at hk
  | succ k =>
    simp only [List.cons_append, List.length_cons] at hn hk
    apply runs_token.bind
    rw [hop]
    apply (runs_advance (passes_of_signOp? hop)).bind
    exact (h n k c us (by omega) (by omega) ends).bind (runs_pure _)

theorem RunsTo.suffix {op : UnaryOp} (hop : suffixOp? o.kind = some op)
    (h : RunsTo file (t :: w) e .primary) :
    RunsTo file (t :: w ++ [o]) (.unary t.line op e) .suffixed := by
  intro n k c us hn hk _
  rw [List.append_assoc] at hn hk ⊢
  have ends : EndsVariable o := by
    constructor <;> intro h <;> rw [h] at hop <;> cases hop
  refine runs_token.bind ((h n k o (c :: us) hn hk ends).bind (runs_token.bind ?_))
  rw [hop]
  exact (runs_advance (passes_of_suffixOp? hop)).bind (runs_pure _)

/-- A creation is read whatever comes after it. -/
theorem new_runs {c l r : Token} {x : ParserM Expr} (word : t.kind = .newWord)
    (type : c.kind = .identifier) (opening : l.kind = .leftParen) (closing : r.kind = .rightParen) :
    Runs file (Grammar.unary n x) (t :: c :: l :: r :: us)
      (some (.new t.line c.spelling, us)) := by
  refine runs_ifCheck word ((runs_take (by rw [word]; rfl)).bind ?_)
  refine (runs_name type).bind ((runs_expect opening rfl).bind ?_)
  exact (runs_expect closing rfl).bind (runs_pure _)

/-- A cast is read up to its operand, and to its end if the operand is. -/
theorem cast_runs {l c m : Token} {x : ParserM Expr} {ts : List Token}
    {r : Option (Expr × List Token)} (word : t.kind = .castWord) (opening : l.kind = .leftParen)
    (type : c.kind = .identifier) (comma : m.kind = .comma)
    (hr : Runs file (do
      let e ← x
      let _ ← expect .rightParen .castClosing
      return .cast t.line c.spelling e) ts r) :
    Runs file (Grammar.unary n x) (t :: l :: c :: m :: ts) r := by
  refine runs_ifCheck_not (by simp [word]) (runs_ifCheck word ?_)
  refine (runs_take (by rw [word]; rfl)).bind ((runs_expect opening rfl).bind ?_)
  exact (runs_name type).bind ((runs_expect comma rfl).bind hr)

theorem RunsTo.new {c l r : Token} (word : t.kind = .newWord) (type : c.kind = .identifier)
    (opening : l.kind = .leftParen) (closing : r.kind = .rightParen) :
    RunsTo file [t, c, l, r] (.new t.line c.spelling) (.level []) :=
  fun _ _ _ _ _ _ _ => new_runs word type opening closing

theorem RunsTo.cast {l c m r : Token} (word : t.kind = .castWord) (opening : l.kind = .leftParen)
    (type : c.kind = .identifier) (comma : m.kind = .comma) (h : RunsTo file w e .expression)
    (closing : r.kind = .rightParen) :
    RunsTo file (t :: l :: c :: m :: w ++ [r]) (.cast t.line c.spelling e) (.level []) := by
  intro n k d us hn _ _
  simp only [List.append_assoc, List.cons_append, List.nil_append] at hn ⊢
  simp only [List.length_cons] at hn
  apply cast_runs word opening type comma
  apply (h.expression (by omega) (ends_expression (by simp [closing]))).bind
  exact (runs_expect closing rfl).bind (runs_pure _)

theorem RunsTo.parens {r : Token} (opening : t.kind = .leftParen)
    (h : RunsTo file w e .expression) (closing : r.kind = .rightParen) :
    RunsTo file (t :: w ++ [r]) e .primary := by
  intro n k d us hn _ _
  simp only [List.append_assoc, List.cons_append, List.nil_append] at hn ⊢
  simp only [List.length_cons] at hn
  apply runs_token.bind
  rw [if_pos opening]
  apply (runs_advance (by rw [opening]; rfl)).bind
  apply (h.expression (by omega) (ends_expression (by simp [closing]))).bind
  exact (runs_expect closing rfl).bind (runs_pure _)

theorem RunsTo.constant {kind : ConstantKind} (h : constantKind? t.kind = some kind) :
    RunsTo file [t] (.constant t.line kind t.spelling) .primary := by
  intro n k d us _ _ _
  have paren : t.kind ≠ .leftParen := by
    intro hp
    rw [hp] at h
    cases h
  apply runs_token.bind
  rw [if_neg paren, h]
  exact (runs_advance (passes_of_constantKind? h)).bind (runs_pure _)

/-- A variable is read up to where its arguments may follow. -/
theorem variable_runs {v : Variable} (hv : IsVariable (t :: w) v) {x : ParserM Expr} {steps : Nat}
    {c : Token} {r : Option (Expr × List Token)} (dot : c.kind ≠ .dot)
    (hr : Runs file (callRest steps x t.line v.receiver? v.name) (c :: us) r) :
    Runs file (primary steps x) (t :: w ++ c :: us) r := by
  have name := hv.first
  apply runs_token.bind
  rw [if_neg (by simp [name]), name]
  apply (runs_take (by rw [name]; rfl)).bind
  cases hv with
  | plain =>
    by_cases known : t.spelling ∈ receivers
    · rw [if_pos known]
      exact runs_ifTakeIf_not dot hr
    · rw [if_neg known]
      exact hr
  | qualified _ known period member =>
    rw [if_pos known]
    exact runs_ifTakeIf period rfl ((runs_name member).bind hr)

theorem RunsTo.var {v : Variable} (hv : IsVariable (t :: w) v) :
    RunsTo file (t :: w) (.var v) .primary := by
  intro n k c us _ _ ends
  refine variable_runs hv ends.2 (runs_ifCheck_not ends.1 ?_)
  cases hv with
  | plain => exact runs_pure _
  | qualified => exact runs_pure _

theorem RunsTo.call {l r : Token} {v : Variable} {items : List (Piece Expr)}
    (hv : IsVariable (t :: w) v) (opening : l.kind = .leftParen)
    (arguments : ∀ i ∈ items, IsExpr .expression i.tokens i.tree)
    (hi : ∀ i ∈ items, RunsTo file i.tokens i.tree .expression)
    (commas : Separated (items.map (·.tokens)) u) (closing : r.kind = .rightParen) :
    RunsTo file (t :: w ++ l :: u ++ [r])
      (.call t.line v.receiver? v.name l.line (items.map (·.tree))) .primary := by
  intro n k c us hn _ _
  simp only [List.append_assoc, List.cons_append, List.nil_append] at hn ⊢
  simp only [List.length_append, List.length_cons] at hn
  refine variable_runs hv (by simp [opening]) (runs_ifCheck opening ?_)
  apply (runs_take (by rw [opening]; rfl)).bind
  refine Runs.bind (commaList_runs (n := n) closing (fun i hm t us hn ht => ?_) (fun i hm => ?_)
    commas ?_ ?_) ((runs_expect closing rfl).bind (runs_pure _))
  · exact (hi i hm).expression hn (ends_expression (by rcases ht with h | h <;> simp [h]))
  · obtain ⟨f, v, hf⟩ := List.exists_cons_of_ne_nil (arguments i hm).ne_nil
    have := arguments i hm
    rw [hf] at this
    refine ⟨f, v, hf, fun h => ?_⟩
    have first := this.first
    rw [h] at first
    exact absurd first (by decide)
  all_goals
    simp only [List.length_append, List.length_cons]
    omega

/-- An assignment is read up to its value, and to its end if the value is. -/
theorem assign_runs {a : Token} {v : Variable} {r : Option (Expr × List Token)}
    (hv : IsVariable (t :: w) v) (sign : a.kind = .assign)
    (hn : (t :: w ++ a :: us).length ≤ n + 1)
    (hr : Runs file (do
      let value ← Grammar.expression n
      return .assign t.line (v.receiver?.map Variable.name) v.name value) us r) :
    Runs file (Grammar.expression (n + 1)) (t :: w ++ a :: us) r := by
  have name := hv.first
  have target : RunsTo file (t :: w) (.var v) (.level Level.all) := by
    refine RunsTo.level (RunsTo.unary (RunsTo.signed (RunsTo.var hv).suffixed ?_) ?_) _ <;>
      rw [name] <;> decide
  refine .of_genuine fun genuine => runs_token.bind ?_
  apply (target n (n + 1) a _ hn hn (endsLevels_of_assign sign (genuine a (by simp)))).bind
  apply runs_ifCheck sign
  rw [target?, if_neg (by simp [name])]
  exact (runs_advance (by rw [sign]; rfl)).bind hr

theorem RunsTo.assign {a : Token} {v : Variable} (hv : IsVariable (t :: w) v)
    (sign : a.kind = .assign) (h : RunsTo file u e .expression) :
    RunsTo file (t :: w ++ a :: u) (.assign t.line (v.receiver?.map Variable.name) v.name e)
      .expression := by
  intro n k c us hn _ ends
  rw [List.append_assoc] at hn ⊢
  refine assign_runs hv sign hn ((h.expression ?_ ends).bind (runs_pure _))
  simp only [List.length_append, List.length_cons, List.cons_append] at hn ⊢
  omega

end

/-- The levels of a place are the last ones of the cascade. -/
def Place.Proper : Place → Prop
  | .level ls => ls <:+ Level.all
  | _ => True

theorem IsExpr.runsTo {p : Place} {w : List Token} {e : Expr} (h : IsExpr p w e)
    (proper : p.Proper) :
    RunsTo file w e p ∧
      ∀ l ls, p = .level (l :: ls) → l.chain = true → Chains file w e l ls := by
  induction h with
  | assign target sign _ ih => exact ⟨.assign target sign (ih trivial).1, nofun⟩
  | plain h ih =>
    obtain ⟨t, w, rfl⟩ := List.exists_cons_of_ne_nil h.ne_nil
    exact ⟨.plain (ih (List.suffix_refl _)).1, nofun⟩
  | @binary l ls t o w u op left right former operator latter ihl ihr =>
    have hr := (ihr ((List.suffix_cons l ls).trans proper)).1
    -- A chain is read by one loop over its operands, so its first part must be known as a loop that
    -- has not ended yet.
    by_cases chain : l.chain = true
    · simp only [chain, if_true] at ihl
      have hc := Chains.binary proper operator ((ihl proper).2 l ls rfl chain) hr
      refine ⟨hc.runsTo, fun l' ls' e _ => ?_⟩
      cases e
      exact hc
    · simp only [chain] at ihl
      have hl := (ihl ((List.suffix_cons l ls).trans proper)).1
      refine ⟨.binary proper (by simpa using chain) operator hl hr, fun l' ls' e h => ?_⟩
      cases e
      exact absurd h chain
  | @operand l ls w e h ih =>
    obtain ⟨t, w, rfl⟩ := List.exists_cons_of_ne_nil h.ne_nil
    have hr := (ih ((List.suffix_cons l ls).trans proper)).1
    refine ⟨hr.operand, fun l' ls' e chain => ?_⟩
    cases e
    exact .of_operand chain hr
  | new word type opening closing => exact ⟨.new word type opening closing, nofun⟩
  | cast word opening type comma _ closing ih =>
    exact ⟨.cast word opening type comma (ih trivial).1 closing, nofun⟩
  | unary h ih =>
    obtain ⟨t, w, rfl⟩ := List.exists_cons_of_ne_nil h.ne_nil
    exact ⟨(ih trivial).1.unary h.first, nofun⟩
  | sign operator _ ih => exact ⟨.sign operator (ih trivial).1, nofun⟩
  | unsigned h ih =>
    obtain ⟨t, w, rfl⟩ := List.exists_cons_of_ne_nil h.ne_nil
    exact ⟨(ih trivial).1.signed h.first, nofun⟩
  | suffix _ operator ih => exact ⟨.suffix operator (ih trivial).1, nofun⟩
  | unsuffixed h ih =>
    obtain ⟨t, w, rfl⟩ := List.exists_cons_of_ne_nil h.ne_nil
    exact ⟨(ih trivial).1.suffixed, nofun⟩
  | parens opening _ closing ih => exact ⟨.parens opening (ih trivial).1 closing, nofun⟩
  | constant h => exact ⟨.constant h, nofun⟩
  | var h =>
    obtain ⟨t, w, rfl⟩ := List.exists_cons_of_ne_nil h.ne_nil
    exact ⟨.var h, nofun⟩
  | call method opening arguments commas closing ih =>
    exact ⟨.call method opening arguments (fun i hi => (ih i hi trivial).1) commas closing, nofun⟩

theorem IsExpr.runs {w : List Token} {e : Expr} (h : IsExpr .expression w e)
    (hn : (w ++ t :: us).length ≤ n) (ht : t.kind ∈ [TokenKind.rightParen, .comma, .semicolon]) :
    Runs file (expression n) (w ++ t :: us) (some (e, t :: us)) :=
  (h.runsTo trivial).1.expression hn (ends_expression ht)

end Grammar
end BantamSyntax
