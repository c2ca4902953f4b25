import BantamSyntax.Proofs.Parsing.CompleteExpressions
import BantamSyntax.Proofs.Printing.Rereading

/-!
# Rejection of expressions

Tokens with the symbols of an expression that is not faithful are rejected where its first unary
operator stands at a creation or a cast.
-/
namespace BantamSyntax

open Grammar Token BantamSyntax.Symbol BantamSyntax.Parser

/-! ## first symbols -/

theorem Expr.symbols_first (e : Expr) :
    ∃ x xs, e.symbols = x :: xs ∧ x.1 ∈ Place.expression.starts ∧
      (e.isCreation = false → x.1 ∈ Place.primary.starts) := by
  have primary {kind : TokenKind} {c : Prop} (h : kind ∈ Place.primary.starts) :
      kind ∈ Place.expression.starts ∧ (c → kind ∈ Place.primary.starts) :=
    ⟨List.mem_append_right _ h, fun _ => h⟩
  have named (receiver : Option String) (name : String) :
      ∃ x xs, reference receiver name = x :: xs ∧ x.1 = .identifier := by
    cases receiver <;> exact ⟨_, _, rfl, rfl⟩
  cases e with
  | constant _ kind spelling =>
    exact ⟨_, _, rfl, primary (by cases kind <;> simp [ofConstant, Place.starts])⟩
  | var v =>
    obtain ⟨x, xs, h, hx⟩ := named (v.receiver?.map Variable.name) v.name
    exact ⟨x, xs, h, primary (by rw [hx]; decide)⟩
  | call _ receiver method _ arguments =>
    obtain ⟨x, xs, h, hx⟩ := named (receiver.map Variable.name) method
    exact ⟨x, _, by rw [symbols, h]; rfl, primary (by rw [hx]; decide)⟩
  | unary _ op operand =>
    cases side : op.side <;>
      exact ⟨opening, _, by simp only [symbols, side]; rfl, primary (by decide)⟩
  | new | cast => exact ⟨_, _, rfl, by decide, fun h => Bool.noConfusion h⟩
  | assign | binary => exact ⟨opening, _, rfl, primary (by decide)⟩

theorem Expr.exists_first {e : Expr} {w : List Token} (h : w.map Token.symbol = e.symbols) :
    ∃ t v, w = t :: v ∧ t.kind ∈ Place.expression.starts ∧
      (e.isCreation = false → t.kind ∈ Place.primary.starts) := by
  obtain ⟨x, xs, hx, first⟩ := e.symbols_first
  rw [hx, List.map_eq_cons_iff] at h
  obtain ⟨t, v, rfl, rfl, _⟩ := h
  exact ⟨t, v, rfl, first⟩

/-! ## places -/

/-- The rule for the place rejects the tokens, whatever comes after them. -/
def Rejects (file : String) (w : List Token) (p : Place) : Prop :=
  ∀ n k us, (w ++ us).length ≤ n + 1 → (w ++ us).length ≤ k → Runs file (p.rule n k) (w ++ us) none

namespace Rejects

variable {file : String} {t : Token} {w u : List Token} {p : Place}

theorem append (h : Rejects file w p) (u : List Token) : Rejects file (w ++ u) p := by
  intro n k us hn hk
  rw [List.append_assoc] at hn hk ⊢
  exact h n k _ hn hk

theorem suffixed (h : Rejects file (t :: w) .primary) : Rejects file (t :: w) .suffixed :=
  fun n k us hn hk => runs_token.bind (h n k us hn hk).bind_none

theorem signed (h : Rejects file (t :: w) .suffixed) (first : signOp? t = none) :
    Rejects file (t :: w) .signed := by
  intro n k us hn hk
  cases k with
  | zero => simp at hk
  | succ k =>
    apply runs_token.bind
    rw [first]
    exact h n (k + 1) us hn hk

theorem unary (h : Rejects file (t :: w) .signed) (first : t.kind ∈ Place.signed.starts) :
    Rejects file (t :: w) (.level []) := by
  intro n k us hn hk
  refine runs_ifCheck_not (fun h => ?_) (runs_ifCheck_not (fun h => ?_) ?_)
  · rw [h] at first
    exact absurd first (by decide)
  · rw [h] at first
    exact absurd first (by decide)
  · exact h n (n + 1) us hn hn

/-- A rule that reads the first token and then the tokens rejects what it rejects. -/
theorem after_token {x : ParserM Expr} {f : Token → Expr → ParserM Expr} {ts : List Token}
    (h : Runs file x ts none) : Runs file (do
      let t ← token
      let e ← x
      f t e) ts none := by
  refine .of_cons fun t us e => ?_
  rw [e] at h ⊢
  exact runs_token.bind h.bind_none

theorem within {ls ms : List Level} (hs : ls <:+ ms) (h : Rejects file w (.level ls)) :
    Rejects file w (.level ms) := by
  induction ms with
  | nil =>
    cases List.suffix_nil.1 hs
    exact h
  | cons m ms ih =>
    rcases List.suffix_cons_iff.1 hs with rfl | hs
    · exact h
    · exact fun n k us hn hk => after_token (ih hs n k us hn hk)

theorem whole {ls : List Level} (hs : ls <:+ Level.all) (h : Rejects file w (.level ls)) :
    Rejects file w .expression :=
  fun n k us hn hk => after_token (h.within hs n k us hn hk)

theorem expression (h : Rejects file w .expression) {n : Nat} {us : List Token}
    (hn : (w ++ us).length ≤ n) : Runs file (Grammar.expression n) (w ++ us) none := by
  cases n with
  | zero =>
    rw [List.length_eq_zero_iff.1 (Nat.le_zero.1 hn)]
    exact .of_cons nofun
  | succ n => exact h n (n + 1) us hn hn

/-- A primary expression that is rejected is so as whatever operand. -/
theorem of_primary (h : Rejects file (t :: w) .primary) (first : t.kind ∈ Place.primary.starts) :
    Rejects file (t :: w) (.level []) ∧ Rejects file (t :: w) .signed := by
  have unsigned : signOp? t = none := by
    simp only [Place.starts, List.mem_cons, List.not_mem_nil, or_false] at first
    rcases first with h | h | h | h | h <;> simp [signOp?, h]
  have signed := h.suffixed.signed unsigned
  exact ⟨signed.unary (List.mem_append_right _ first), signed⟩

/-- No sign and no suffix stands at a creation or a cast. -/
theorem of_word (h : t.kind = .newWord ∨ t.kind = .castWord) : Rejects file (t :: w) .signed := by
  have primary : Rejects file (t :: w) .primary := by
    intro n k us _ _
    apply runs_token.bind
    rcases h with h | h <;> rw [if_neg (by simp [h]), h] <;> exact runs_fail
  exact primary.suffixed.signed (by rcases h with h | h <;> simp [signOp?, h])

theorem parens (opening : t.kind = .leftParen) (h : Rejects file w .expression) :
    Rejects file (t :: w) .primary := by
  intro n k us hn _
  simp only [List.cons_append, List.length_cons] at hn
  apply runs_token.bind
  rw [if_pos opening]
  exact (runs_advance (by rw [opening]; rfl)).bind (h.expression (by omega)).bind_none

theorem enclosed (opening : t.kind = .leftParen) (h : Rejects file w .expression) :
    Rejects file (t :: w) (.level []) ∧ Rejects file (t :: w) .signed :=
  (parens opening h).of_primary (by rw [opening]; decide)

theorem assign {a : Token} {v : Variable} (hv : IsVariable (t :: w) v) (sign : a.kind = .assign)
    (h : Rejects file u .expression) : Rejects file (t :: w ++ a :: u) .expression := by
  intro n k us hn _
  rw [List.append_assoc] at hn ⊢
  refine assign_runs hv sign hn (h.expression ?_).bind_none
  simp only [List.length_append, List.length_cons, List.cons_append] at hn ⊢
  omega

theorem cast {l c m : Token} (word : t.kind = .castWord) (opening : l.kind = .leftParen)
    (type : c.kind = .identifier) (comma : m.kind = .comma) (h : Rejects file w .expression) :
    Rejects file (t :: l :: c :: m :: w) (.level []) := by
  intro n k us hn _
  simp only [List.cons_append, List.length_cons] at hn
  exact cast_runs word opening type comma (h.expression (by omega)).bind_none

theorem sign {op : UnaryOp} (hop : signOp? t = some op) (h : Rejects file w .signed) :
    Rejects file (t :: w) .signed := by
  intro n k us hn hk
  cases k with
  | zero => simp at hk
  | succ k =>
    simp only [List.cons_append, List.length_cons] at hn hk
    apply runs_token.bind
    rw [hop]
    exact (runs_advance (passes_of_signOp? hop)).bind (h n k us (by omega) (by omega)).bind_none

theorem operand {l : Level} {ls : List Level} {o : Token} {op : BinaryOp} {left : Expr}
    (hs : l :: ls <:+ Level.all) (hop : l.op? o = some op)
    (hl : RunsTo file (t :: w) left (.level ls)) (hr : Rejects file u (.level ls)) :
    Rejects file (t :: w ++ o :: u) (.level (l :: ls)) := by
  intro n k us hn hk
  rw [List.append_assoc] at hn ⊢
  have len : (u ++ us).length ≤ n + 1 := by
    simp only [List.length_append, List.length_cons, List.cons_append] at hn ⊢
    omega
  refine .of_genuine fun genuine => runs_token.bind ?_
  refine (hl n (n + 1) o (u ++ us) hn hn
    (endsLevels_of_op? hs hop (genuine o (by simp)))).bind ?_
  have rejected := hr n (n + 1) us len len
  by_cases chain : l.chain = true
  · rw [if_pos chain]
    apply runs_token.bind
    rw [hop]
    exact (runs_advance (passes_of_op? hop)).bind rejected.bind_none
  · rw [if_neg chain]
    apply runs_token.bind
    rw [hop]
    exact (runs_advance (passes_of_op? hop)).bind rejected.bind_none

theorem call {l : Token} {v : Variable} (hv : IsVariable (t :: w) v)
    (opening : l.kind = .leftParen)
    (h : ∀ n k us, (u ++ us).length ≤ n → (u ++ us).length ≤ k →
      Runs file (arguments k (Grammar.expression n)) (u ++ us) none) :
    Rejects file (t :: w ++ l :: u) .primary := by
  intro n k us hn _
  rw [List.append_assoc] at hn ⊢
  simp only [List.length_append, List.length_cons, List.cons_append] at hn
  refine variable_runs hv (by simp [opening]) (runs_ifCheck opening ?_)
  refine (runs_take (by rw [opening]; rfl)).bind (Runs.bind_none (h n (n + 1) us ?_ ?_)) <;>
    simp only [List.length_append] <;> omega

end Rejects

/-! ## suffixes of creations -/

section

variable {file : String} {t : Token} {w us : List Token} {n : Nat}

/-- Creations and casts are read whatever comes after them. -/
theorem Expr.creation_runs {e : Expr} (valid : e.Valid) (faithful : e.faithful = true)
    (creation : e.isCreation = true) (h : w.map Token.symbol = e.symbols) :
    ∃ e', ∀ file n us, (w ++ us).length ≤ n + 1 →
      Runs file (Grammar.unary (n + 1) (expression n)) (w ++ us) (some (e', us)) := by
  cases e with
  | new _ type =>
    simp only [symbols, List.map_eq_cons_iff, List.map_eq_nil_iff] at h
    obtain ⟨t, _, rfl, ht, c, _, rfl, hc, l, _, rfl, hl, r, _, rfl, hr, rfl⟩ := h
    exact ⟨_, fun file n us _ =>
      new_runs (kind_of_symbol ht) (kind_of_symbol hc) (kind_of_symbol hl) (kind_of_symbol hr)⟩
  | cast _ type operand =>
    simp only [symbols, List.cons_append, List.map_eq_append_iff, List.map_eq_cons_iff,
      List.map_eq_nil_iff] at h
    obtain ⟨t, _, rfl, ht, l, _, rfl, hl, c, _, rfl, hc, m, _, rfl, hm, u, _, rfl, hu, r, _, rfl,
      hr, rfl⟩ := h
    obtain ⟨e', he, _⟩ := Expr.reread_whole valid.2 faithful hu
    refine ⟨.cast t.line c.spelling e', fun file n us hn => ?_⟩
    simp only [List.append_assoc, List.cons_append, List.nil_append] at hn ⊢
    simp only [List.length_cons] at hn
    refine cast_runs (kind_of_symbol ht) (kind_of_symbol hl) (kind_of_symbol hc) (kind_of_symbol hm)
      ((he.runs (by omega) ?_).bind ?_)
    · rw [kind_of_symbol hr]
      decide
    · exact (runs_expect (kind_of_symbol hr) rfl).bind (runs_pure _)
  | _ => cases creation

/-- What is read with no operators is read so by all levels before none of their operators. -/
theorem cascade_runs {x : ParserM Expr} {e : Expr} {ls : List Level} {o : Token} {v : List Token}
    (hn : 0 < n) (hx : Runs file (Grammar.unary n x) (t :: v) (some (e, o :: us)))
    (h : ∀ l ∈ ls, l.op? o = none) : Runs file (cascade n x ls) (t :: v) (some (e, o :: us)) := by
  induction ls with
  | nil => exact hx
  | cons l ls ih => exact level_runs hn (ih fun m hm => h m (by simp [hm])) (h l (by simp))

theorem noOperator_of_suffix {op : UnaryOp} {o : Token} (h : o.symbol = ofUnary op)
    (side : op.side = .after) : ∀ l ∈ Level.all, l.op? o = none := by
  intro l hl
  refine Level.op?_eq_none fun hm => Level.all_disjoint.2 l hl _ ?_ hm
  cases op with
  | negate => cases side
  | not => cases side
  | increment => simp [spelling_of_symbol h, UnaryOp.symbol]
  | decrement => simp [spelling_of_symbol h, UnaryOp.symbol]

/-- After a creation there must be a closing parenthesis where a suffix is. -/
theorem Rejects.suffix {e : Expr} {op : UnaryOp} {l o : Token} (valid : e.Valid)
    (faithful : e.faithful = true) (creation : e.isCreation = true)
    (h : w.map Token.symbol = e.symbols) (opening : l.kind = .leftParen)
    (ho : o.symbol = ofUnary op) (side : op.side = .after) :
    Rejects file (l :: w ++ [o]) .primary := by
  intro n k us hn _
  obtain ⟨e', he⟩ := Expr.creation_runs valid faithful creation h
  obtain ⟨t, w, rfl, _⟩ := Expr.exists_first h
  have kind : o.kind ≠ .assign ∧ o.kind ≠ .rightParen := by
    cases op with
    | negate => cases side
    | not => cases side
    | increment => simp [kind_of_symbol ho]
    | decrement => simp [kind_of_symbol ho]
  simp only [List.append_assoc, List.cons_append, List.nil_append] at hn ⊢
  simp only [List.length_cons] at hn
  apply runs_token.bind
  rw [if_pos opening]
  apply (runs_advance (by rw [opening]; rfl)).bind
  -- The creation is all that the rule takes for the expression, and the suffix closes nothing.
  cases n with
  | zero => omega
  | succ n =>
    have read := he file n (o :: us) (by simp only [List.cons_append, List.length_cons]; omega)
    have levels := cascade_runs (by omega) read (noOperator_of_suffix ho side)
    have inner : Runs file (Grammar.expression (n + 1)) (t :: (w ++ o :: us))
        (some (e', o :: us)) :=
      runs_token.bind (levels.bind (runs_ifCheck_not kind.1 (runs_pure e')))
    exact inner.bind (runs_expect_none kind.2).bind_none

end

/-! ## expressions -/

theorem Expr.creation_rejected {file : String} {e : Expr} (creation : e.isCreation = true)
    {w : List Token} (h : w.map Token.symbol = e.symbols) : Rejects file w .signed := by
  cases e with
  | new | cast =>
    simp only [symbols, List.cons_append, List.map_eq_cons_iff] at h
    obtain ⟨t, _, rfl, ht, _⟩ := h
    exact .of_word (by simp [kind_of_symbol ht])
  | _ => cases creation

theorem Expr.exists_first_all {es : List Expr} (unfaithful : Expr.allFaithful es = false)
    {w : List Token} (h : w.map Token.symbol = Expr.symbolsAll es) :
    ∃ t v, w = t :: v ∧ t.kind ≠ .rightParen := by
  cases es with
  | nil => cases unfaithful
  | cons e es =>
    obtain ⟨x, xs, hx, first, _⟩ := e.symbols_first
    have begins : ∃ ys, Expr.symbolsAll (e :: es) = x :: ys := by
      cases es with
      | nil => exact ⟨xs, hx⟩
      | cons => exact ⟨_, by simp only [symbolsAll, hx]; rfl⟩
    obtain ⟨ys, hy⟩ := begins
    rw [hy, List.map_eq_cons_iff] at h
    obtain ⟨t, v, rfl, rfl, _⟩ := h
    refine ⟨t, v, rfl, fun hk => ?_⟩
    rw [show t.symbol.1 = .rightParen from hk] at first
    exact absurd first (by decide)

section

variable {file : String}

mutual

theorem Expr.rejected {e : Expr} (valid : e.Valid) (unfaithful : e.faithful = false)
    {w : List Token} (h : w.map Token.symbol = e.symbols) :
    Rejects file w (.level []) ∧ Rejects file w .signed := by
  match e with
  | .constant .. | .var _ | .new .. => cases unfaithful
  | .assign _ receiver name value =>
    obtain ⟨hr, hn, hv⟩ := valid
    simp only [symbols, List.cons_append, List.append_assoc, List.map_eq_append_iff,
      List.map_eq_cons_iff, List.map_eq_nil_iff] at h
    obtain ⟨l, _, rfl, hl, w, _, rfl, hw, a, _, rfl, ha, u, v, rfl, hu, _⟩ := h
    obtain ⟨v', hvar, _⟩ := isVariable_of_reference hr hw
    obtain ⟨t, w, rfl⟩ := List.exists_cons_of_ne_nil hvar.ne_nil
    have inner := ((Expr.rejected hv unfaithful hu).1.whole List.nil_suffix).append v
    exact Rejects.enclosed (kind_of_symbol hl) (.assign hvar (kind_of_symbol ha) inner)
  | .call _ receiver method _ arguments =>
    obtain ⟨hr, hn, ha⟩ := valid
    simp only [symbols, List.cons_append, List.append_assoc, List.map_eq_append_iff,
      List.map_eq_cons_iff, List.map_eq_nil_iff] at h
    obtain ⟨w, _, rfl, hw, l, _, rfl, hl, u, v, rfl, hu, _⟩ := h
    obtain ⟨v', hvar, _⟩ := isVariable_of_reference (Variable.receiver_name hr) hw
    obtain ⟨t, w, rfl⟩ := List.exists_cons_of_ne_nil hvar.ne_nil
    refine Rejects.of_primary ?_ (by rw [hvar.first]; decide)
    refine .call hvar (kind_of_symbol hl) fun n k us hn hk => ?_
    obtain ⟨f, x, hf, noParen⟩ := Expr.exists_first_all unfaithful hu
    rw [List.append_assoc] at hn hk ⊢
    have rejected := Expr.rejected_all ha unfaithful hu hn hk
    rw [hf] at rejected ⊢
    exact runs_ifCheck_not noParen rejected
  | .cast _ type operand =>
    simp only [symbols, List.cons_append, List.map_eq_append_iff, List.map_eq_cons_iff,
      List.map_eq_nil_iff] at h
    obtain ⟨t, _, rfl, ht, l, _, rfl, hl, c, _, rfl, hc, m, _, rfl, hm, u, v, rfl, hu, _⟩ := h
    have inner :=
      ((Expr.rejected valid.2 unfaithful hu).1.whole List.nil_suffix).append v
    exact ⟨.cast (kind_of_symbol ht) (kind_of_symbol hl) (kind_of_symbol hc) (kind_of_symbol hm)
      inner, .of_word (.inr (kind_of_symbol ht))⟩
  | .binary _ op left right =>
    simp only [Expr.faithful, Bool.and_eq_false_iff] at unfaithful
    simp only [symbols, List.cons_append, List.append_assoc, List.map_eq_append_iff,
      List.map_eq_cons_iff, List.map_eq_nil_iff] at h
    obtain ⟨l, _, rfl, hl, w, _, rfl, hw, o, _, rfl, ho, u, v, rfl, hu, _⟩ := h
    apply Rejects.enclosed (kind_of_symbol hl)
    cases hf : left.faithful with
    | false =>
      exact ((Expr.rejected valid.1 hf hw).1.whole List.nil_suffix).append _
    | true =>
      have right := unfaithful.resolve_left (by simp [hf])
      obtain ⟨e', he, _⟩ := Expr.reread valid.1 hf hw
      obtain ⟨t, w, rfl⟩ := List.exists_cons_of_ne_nil he.ne_nil
      obtain ⟨level, ls, hs, hop⟩ := exists_level ho
      have former : RunsTo file (t :: w) e' (.level ls) :=
        ((he.within List.nil_suffix).runsTo ((List.suffix_cons level ls).trans hs)).1
      have latter : Rejects file u (.level ls) :=
        (Expr.rejected valid.2 right hu).1.within List.nil_suffix
      exact (Rejects.operand hs hop former (latter.append v)).whole hs
  | .unary _ op operand =>
    have operandValid : operand.Valid := valid
    simp only [Expr.faithful, Bool.and_eq_false_iff, Bool.not_eq_false'] at unfaithful
    cases side : op.side with
    | before =>
      simp only [symbols, side, List.cons_append, List.map_eq_append_iff, List.map_eq_cons_iff,
        List.map_eq_nil_iff] at h
      obtain ⟨l, _, rfl, hl, o, _, rfl, ho, w, v, rfl, hw, _⟩ := h
      have hop := signOp?_of_symbol ho side
      have inner : Rejects file w .signed := by
        cases hf : operand.faithful with
        | false => exact (Expr.rejected operandValid hf hw).2
        | true => exact Expr.creation_rejected (unfaithful.resolve_right (by simp [hf])) hw
      have signed := (Rejects.sign hop (inner.append v)).unary (mem_starts_of_signOp? hop)
      exact Rejects.enclosed (kind_of_symbol hl) (signed.whole List.nil_suffix)
    | after =>
      simp only [symbols, side, List.cons_append, List.map_eq_append_iff, List.map_eq_cons_iff,
        List.map_eq_nil_iff] at h
      obtain ⟨l, _, rfl, hl, w, _, rfl, hw, o, _, rfl, ho, r, _, rfl, hr, rfl⟩ := h
      cases hf : operand.faithful with
      | false =>
        have inner := (Expr.rejected operandValid hf hw).1.whole List.nil_suffix
        exact Rejects.enclosed (kind_of_symbol hl) (inner.append _)
      | true =>
        have creation := unfaithful.resolve_right (by simp [hf])
        have inner : Rejects file (l :: w ++ [o]) .primary :=
          .suffix operandValid hf creation hw (kind_of_symbol hl) ho side
        refine Rejects.of_primary ?_ (by rw [kind_of_symbol hl]; decide)
        simpa only [List.cons_append, List.append_assoc, List.nil_append] using inner.append [r]

/-- The items before the first that is rejected are read. -/
theorem Expr.rejected_all {es : List Expr} (valid : Expr.AllValid es)
    (unfaithful : Expr.allFaithful es = false) {w : List Token}
    (h : w.map Token.symbol = Expr.symbolsAll es) {n k : Nat} {us : List Token}
    (hn : (w ++ us).length ≤ n) (hk : (w ++ us).length ≤ k) :
    Runs file (do
      let x ← expression n
      let xs ← afterCommas (expression n) k
      return x :: xs) (w ++ us) none := by
  match es with
  | [] => cases unfaithful
  | [e] =>
    have last : e.faithful = false := by simpa [Expr.allFaithful] using unfaithful
    exact (((Expr.rejected valid.1 last h).1.whole List.nil_suffix).expression hn).bind_none
  | e :: e' :: es =>
    simp only [symbolsAll, List.map_eq_append_iff, List.map_eq_cons_iff] at h
    obtain ⟨w, _, rfl, hw, c, u, rfl, hc, hu⟩ := h
    rw [List.append_assoc] at hn hk ⊢
    cases hf : e.faithful with
    | false =>
      exact (((Expr.rejected valid.1 hf hw).1.whole List.nil_suffix).expression hn).bind_none
    | true =>
      have rest : Expr.allFaithful (e' :: es) = false := by
        simpa [Expr.allFaithful, hf] using unfaithful
      obtain ⟨x, he, _⟩ := Expr.reread_whole valid.1 hf hw
      refine (he.runs hn (by rw [kind_of_symbol hc]; decide)).bind (Runs.bind_none ?_)
      simp only [List.length_append, List.length_cons, List.cons_append] at hn hk
      cases k with
      | zero => omega
      | succ k =>
        refine runs_ifTakeIf (kind_of_symbol hc) rfl (Expr.rejected_all valid.2 rest hu ?_ ?_) <;>
          simp only [List.length_append] <;> omega

end

theorem Expr.rejected_whole {e : Expr} (valid : e.Valid) (unfaithful : e.faithful = false)
    {w : List Token} (h : w.map Token.symbol = e.symbols) : Rejects file w .expression :=
  (Expr.rejected valid unfaithful h).1.whole List.nil_suffix

theorem Expr.rejected_or {e : Option Expr} (valid : ∀ x ∈ e, x.Valid)
    (unfaithful : e.all Expr.faithful = false) {w : List Token}
    (h : w.map Token.symbol = Expr.symbolsOr e) {closing : TokenKind}
    (hc : closing ∈ [TokenKind.rightParen, .semicolon]) {n : Nat} {us : List Token}
    (hn : (w ++ us).length ≤ n) : Runs file (optional closing (expression n)) (w ++ us) none := by
  cases e with
  | none => cases unfaithful
  | some e =>
    have rejected : Runs file (expression n) (w ++ us) none :=
      (Expr.rejected_whole (valid e rfl) unfaithful h).expression hn
    obtain ⟨t, v, rfl, first, _⟩ := Expr.exists_first h
    refine runs_ifCheck_not (fun hk => ?_) rejected.bind_none
    rw [hk] at first
    simp only [List.mem_cons, List.not_mem_nil, or_false] at hc
    rcases hc with rfl | rfl <;> exact absurd first (by decide)

end

end BantamSyntax
