import BantamSyntax.Proofs.Parsing.Derivation
import BantamSyntax.Proofs.Printing.Likeness
import BantamSyntax.Proofs.Printing.Symbols

/-!
# Rereading

Tokens with the symbols of a faithful tree are derived as a tree like it.
-/
namespace BantamSyntax

theorem Token.kind_of_symbol {t : Token} {kind : TokenKind} {s : String}
    (h : t.symbol = (kind, s)) : t.kind = kind :=
  congrArg Prod.fst h

theorem Token.spelling_of_symbol {t : Token} {kind : TokenKind} {s : String}
    (h : t.symbol = (kind, s)) : t.spelling = s :=
  congrArg Prod.snd h

open Grammar Token BantamSyntax.Symbol

/-! ## expressions inside others -/

namespace Grammar

theorem IsExpr.climb {w : List Token} {e : Expr} (h : IsExpr .primary w e) :
    IsExpr (.level []) w e :=
  .unary (.unsigned (.unsuffixed h))

theorem IsExpr.within {ls ms : List Level} {w : List Token} {e : Expr} (hs : ls <:+ ms)
    (h : IsExpr (.level ls) w e) : IsExpr (.level ms) w e := by
  induction ms with
  | nil =>
    cases List.suffix_nil.1 hs
    exact h
  | cons m ms ih =>
    rcases List.suffix_cons_iff.1 hs with rfl | hs
    · exact h
    · exact .operand (ih hs)

theorem IsExpr.whole {ls : List Level} {w : List Token} {e : Expr} (hs : ls <:+ Level.all)
    (h : IsExpr (.level ls) w e) : IsExpr .expression w e :=
  .plain (h.within hs)

/-- Every binary operator has a level. -/
theorem exists_level {op : BinaryOp} {t : Token} (h : t.symbol = ofBinary op) :
    ∃ l ls, l :: ls <:+ Level.all ∧ l.op? t = some op := by
  have of_drop (n : Nat) {l : Level} {ls : List Level} (hs : Level.all.drop n = l :: ls)
      (hop : t.kind.isOperator = true ∧ l.operators.lookup t.spelling = some op) :
      ∃ l ls, l :: ls <:+ Level.all ∧ l.op? t = some op :=
    ⟨l, ls, hs ▸ List.drop_suffix n Level.all, by rw [Level.op?, if_pos hop.1, hop.2]⟩
  rcases op with op | op | op <;> cases op <;>
    rw [kind_of_symbol h, spelling_of_symbol h] at of_drop
  · exact of_drop 4 rfl ⟨rfl, rfl⟩
  · exact of_drop 4 rfl ⟨rfl, rfl⟩
  · exact of_drop 5 rfl ⟨rfl, rfl⟩
  · exact of_drop 5 rfl ⟨rfl, rfl⟩
  · exact of_drop 5 rfl ⟨rfl, rfl⟩
  · exact of_drop 2 rfl ⟨rfl, rfl⟩
  · exact of_drop 2 rfl ⟨rfl, rfl⟩
  · exact of_drop 3 rfl ⟨rfl, rfl⟩
  · exact of_drop 3 rfl ⟨rfl, rfl⟩
  · exact of_drop 3 rfl ⟨rfl, rfl⟩
  · exact of_drop 3 rfl ⟨rfl, rfl⟩
  · exact of_drop 1 rfl ⟨rfl, rfl⟩
  · exact of_drop 0 rfl ⟨rfl, rfl⟩

theorem signOp?_of_symbol {op : UnaryOp} {t : Token} (h : t.symbol = ofUnary op)
    (side : op.side = .before) : signOp? t = some op := by
  cases op with
  | negate => simp [signOp?, kind_of_symbol h, spelling_of_symbol h, UnaryOp.symbol]
  | not => simp [signOp?, kind_of_symbol h]
  | increment side' =>
    cases side
    simp [signOp?, kind_of_symbol h]
  | decrement side' =>
    cases side
    simp [signOp?, kind_of_symbol h]

theorem suffixOp?_of_symbol {op : UnaryOp} {t : Token} (h : t.symbol = ofUnary op)
    (side : op.side = .after) : suffixOp? t.kind = some op := by
  cases op with
  | negate => cases side
  | not => cases side
  | increment side' =>
    cases side
    simp [suffixOp?, kind_of_symbol h]
  | decrement side' =>
    cases side
    simp [suffixOp?, kind_of_symbol h]

/-- The variable with no line known. -/
def variableOf (receiver : Option String) (name : String) : Variable :=
  match receiver with
  | none => .plain 0 name
  | some r => .qualified 0 (.plain 0 r) name

theorem isVariable_of_reference {ts : List Token} {receiver : Option String} {name : String}
    (hr : receiver.all isReceiver = true) (h : ts.map Token.symbol = reference receiver name) :
    ∃ v, IsVariable ts v ∧ v.bare = variableOf receiver name := by
  cases receiver with
  | none =>
    obtain ⟨t, rfl, ht⟩ := List.map_eq_singleton_iff.1 h
    refine ⟨_, .plain (kind_of_symbol ht), ?_⟩
    rw [spelling_of_symbol ht]
    rfl
  | some r =>
    simp only [reference, List.map_eq_cons_iff, List.map_eq_nil_iff] at h
    obtain ⟨t, _, rfl, ht, d, _, rfl, hd, n, _, rfl, hn, rfl⟩ := h
    have known : t.spelling ∈ receivers := by
      rw [spelling_of_symbol ht]
      simpa [isReceiver] using hr
    refine ⟨_, .qualified (kind_of_symbol ht) known (kind_of_symbol hd) (kind_of_symbol hn), ?_⟩
    rw [spelling_of_symbol ht, spelling_of_symbol hn]
    rfl

theorem bare_eq_variableOf {v : Variable} (h : v.isValid = true) :
    v.bare = variableOf (v.receiver?.map Variable.name) v.name := by
  cases v with
  | plain => rfl
  | qualified line receiver name =>
    cases receiver with
    | plain => rfl
    | qualified => cases h

theorem names_of_bare {v : Variable} {receiver : Option String} {name : String}
    (h : v.bare = variableOf receiver name) :
    v.receiver?.map Variable.name = receiver ∧ v.name = name := by
  have hr : v.bare.receiver?.map Variable.name = v.receiver?.map Variable.name := by simp
  rw [← hr, ← v.name_bare, h]
  cases receiver <;> exact ⟨rfl, rfl⟩

theorem receiver_of_bare {v : Variable} {receiver : Option Variable} {name : String}
    (hr : receiver.all Variable.isReceiver = true)
    (h : v.bare = variableOf (receiver.map Variable.name) name) :
    v.receiver?.map Variable.bare = receiver.map Variable.bare := by
  rw [← Variable.receiver?_bare, h]
  cases receiver with
  | none => rfl
  | some r =>
    cases r with
    | plain => rfl
    | qualified => cases hr

theorem IsExpr.enclosed {l r : Token} {w : List Token} {e : Expr} (hl : l.symbol = opening)
    (inner : IsExpr .expression w e) (hr : r.symbol = closing) :
    IsExpr .primary (l :: w ++ [r]) e :=
  .parens (kind_of_symbol hl) inner (kind_of_symbol hr)

end Grammar

/-! ## expressions -/

/-- The tokens are an expression like this one, which is a primary one unless it is a creation or a
cast. -/
def Expr.ReadAs (e : Expr) (w : List Token) : Prop :=
  ∃ e', IsExpr (.level []) w e' ∧ (e.isCreation = false → IsExpr .primary w e') ∧ e'.bare = e.bare

theorem Expr.ReadAs.of_primary {e e' : Expr} {w : List Token} (h : IsExpr .primary w e')
    (same : e'.bare = e.bare) : e.ReadAs w :=
  ⟨e', h.climb, fun _ => h, same⟩

mutual

theorem Expr.reread {e : Expr} (valid : e.Valid) (faithful : e.faithful = true) {w : List Token}
    (h : w.map Token.symbol = e.symbols) : e.ReadAs w := by
  match e with
  | .constant line kind spelling =>
    obtain ⟨t, rfl, ht⟩ := List.map_eq_singleton_iff.1 h
    have known : constantKind? t.kind = some kind := by
      cases kind <;> rw [kind_of_symbol ht] <;> rfl
    have spelled : t.spelling = spelling := by
      cases kind <;> exact spelling_of_symbol ht
    exact .of_primary (.constant known) (by simp only [bare, spelled])
  | .var v =>
    obtain ⟨hr, hn⟩ := Variable.valid_parts valid
    obtain ⟨v', hv, same⟩ := isVariable_of_reference hr h
    exact .of_primary (.var hv) (by simp only [bare, same, bare_eq_variableOf valid])
  | .assign _ receiver name value =>
    obtain ⟨hr, hn, hv⟩ := valid
    simp only [symbols, List.cons_append, List.append_assoc, List.map_eq_append_iff,
      List.map_eq_cons_iff, List.map_eq_nil_iff] at h
    obtain ⟨l, _, rfl, hl, w, _, rfl, hw, a, _, rfl, ha, u, _, rfl, hu, r, _, rfl, hr', rfl⟩ := h
    obtain ⟨v', hvar, same⟩ := isVariable_of_reference hr hw
    obtain ⟨t, w, rfl⟩ := List.exists_cons_of_ne_nil hvar.ne_nil
    obtain ⟨e', he, _, same'⟩ := Expr.reread hv faithful hu
    obtain ⟨hreceiver, hname⟩ := names_of_bare same
    have inner := IsExpr.assign hvar (kind_of_symbol ha) (he.whole List.nil_suffix)
    have whole := IsExpr.enclosed hl inner hr'
    simp only [List.cons_append, List.append_assoc] at whole ⊢
    exact .of_primary whole (by simp only [bare, hreceiver, hname, same'])
  | .call _ receiver method _ arguments =>
    obtain ⟨hr, hn, ha⟩ := valid
    simp only [symbols, List.cons_append, List.append_assoc, List.map_eq_append_iff,
      List.map_eq_cons_iff, List.map_eq_nil_iff] at h
    obtain ⟨w, _, rfl, hw, l, _, rfl, hl, u, _, rfl, hu, r, _, rfl, hr', rfl⟩ := h
    obtain ⟨v', hvar, same⟩ := isVariable_of_reference (Variable.receiver_name hr) hw
    obtain ⟨t, w, rfl⟩ := List.exists_cons_of_ne_nil hvar.ne_nil
    obtain ⟨items, hi, commas, same'⟩ := Expr.reread_all ha faithful hu
    have whole := IsExpr.call hvar (kind_of_symbol hl) hi commas (kind_of_symbol hr')
    simp only [List.cons_append, List.append_assoc] at whole ⊢
    exact .of_primary whole
      (by simp only [bare, receiver_of_bare hr same, (names_of_bare same).2, same'])
  | .new _ type =>
    simp only [symbols, List.map_eq_cons_iff, List.map_eq_nil_iff] at h
    obtain ⟨n, _, rfl, hn, c, _, rfl, hc, l, _, rfl, hl, r, _, rfl, hr, rfl⟩ := h
    have whole := IsExpr.new (kind_of_symbol hn) (kind_of_symbol hc) (kind_of_symbol hl)
      (kind_of_symbol hr)
    exact ⟨_, whole, nofun, by simp only [bare, spelling_of_symbol hc]⟩
  | .cast _ type operand =>
    simp only [symbols, List.cons_append, List.map_eq_append_iff, List.map_eq_cons_iff,
      List.map_eq_nil_iff] at h
    obtain ⟨t, _, rfl, ht, l, _, rfl, hl, c, _, rfl, hc, m, _, rfl, hm, u, _, rfl, hu, r, _, rfl,
      hr, rfl⟩ := h
    obtain ⟨e', he, _, same⟩ := Expr.reread valid.2 faithful hu
    have whole := IsExpr.cast (kind_of_symbol ht) (kind_of_symbol hl) (kind_of_symbol hc)
      (kind_of_symbol hm) (he.whole List.nil_suffix) (kind_of_symbol hr)
    exact ⟨_, whole, nofun, by simp only [bare, spelling_of_symbol hc, same]⟩
  | .binary _ op left right =>
    simp only [Expr.faithful, Bool.and_eq_true] at faithful
    simp only [symbols, List.cons_append, List.append_assoc, List.map_eq_append_iff,
      List.map_eq_cons_iff, List.map_eq_nil_iff] at h
    obtain ⟨l, _, rfl, hl, w, _, rfl, hw, o, _, rfl, ho, u, _, rfl, hu, r, _, rfl, hr, rfl⟩ := h
    obtain ⟨e', he, _, same⟩ := Expr.reread valid.1 faithful.1 hw
    obtain ⟨e'', he', _, same'⟩ := Expr.reread valid.2 faithful.2 hu
    obtain ⟨t, w, rfl⟩ := List.exists_cons_of_ne_nil he.ne_nil
    obtain ⟨level, ls, hs, hop⟩ := exists_level ho
    have inner : IsExpr (.level (level :: ls)) (t :: w ++ o :: u) (.binary t.line op e' e'') :=
      .binary (he.within List.nil_suffix) hop (he'.within List.nil_suffix)
    have whole := IsExpr.enclosed hl (inner.whole hs) hr
    simp only [List.cons_append, List.append_assoc] at whole ⊢
    exact .of_primary whole (by simp only [bare, same, same'])
  | .unary _ op operand =>
    have operandValid : operand.Valid := valid
    simp only [Expr.faithful, Bool.and_eq_true, Bool.not_eq_true'] at faithful
    cases side : op.side with
    | before =>
      simp only [symbols, side, List.cons_append, List.map_eq_append_iff, List.map_eq_cons_iff,
        List.map_eq_nil_iff] at h
      obtain ⟨l, _, rfl, hl, o, _, rfl, ho, w, _, rfl, hw, r, _, rfl, hr, rfl⟩ := h
      obtain ⟨e', _, he, same⟩ := Expr.reread operandValid faithful.2 hw
      have inner := IsExpr.sign (signOp?_of_symbol ho side)
        (.unsigned (.unsuffixed (he faithful.1)))
      have whole := IsExpr.enclosed hl (IsExpr.whole List.nil_suffix (.unary inner)) hr
      exact .of_primary whole (by simp only [bare, same])
    | after =>
      simp only [symbols, side, List.cons_append, List.map_eq_append_iff, List.map_eq_cons_iff,
        List.map_eq_nil_iff] at h
      obtain ⟨l, _, rfl, hl, w, _, rfl, hw, o, _, rfl, ho, r, _, rfl, hr, rfl⟩ := h
      obtain ⟨e', _, he, same⟩ := Expr.reread operandValid faithful.2 hw
      have operandAs := he faithful.1
      obtain ⟨t, w, rfl⟩ := List.exists_cons_of_ne_nil operandAs.ne_nil
      have inner := IsExpr.suffix operandAs (suffixOp?_of_symbol ho side)
      have whole := IsExpr.enclosed hl (IsExpr.whole List.nil_suffix (.unary (.unsigned inner))) hr
      simp only [List.cons_append, List.append_assoc, List.nil_append] at whole ⊢
      exact .of_primary whole (by simp only [bare, same])

theorem Expr.reread_all {es : List Expr} (valid : Expr.AllValid es)
    (faithful : Expr.allFaithful es = true) {w : List Token}
    (h : w.map Token.symbol = Expr.symbolsAll es) :
    ∃ items : List (Piece Expr), (∀ i ∈ items, IsExpr .expression i.tokens i.tree) ∧
      Separated (items.map (·.tokens)) w ∧ Expr.bares (items.map (·.tree)) = Expr.bares es := by
  match es with
  | [] =>
    rw [List.map_eq_nil_iff.1 h]
    exact ⟨[], by simp, .nil, rfl⟩
  | [e] =>
    simp only [Expr.allFaithful, Bool.and_eq_true] at faithful
    obtain ⟨e', he, _, same⟩ := Expr.reread valid.1 faithful.1 h
    exact ⟨[⟨w, e'⟩], by simpa using he.whole List.nil_suffix, .one, by simp only [List.map,
      bares, same]⟩
  | e :: e' :: es =>
    simp only [Expr.allFaithful, Bool.and_eq_true] at faithful
    simp only [symbolsAll, List.map_eq_append_iff, List.map_eq_cons_iff] at h
    obtain ⟨w, _, rfl, hw, c, u, rfl, hc, hu⟩ := h
    obtain ⟨first, he, _, same⟩ := Expr.reread valid.1 faithful.1 hw
    obtain ⟨items, hi, commas, same'⟩ :=
      Expr.reread_all valid.2 (by simpa [Expr.allFaithful] using faithful.2) hu
    cases items with
    | nil => cases same'
    | cons i items =>
      refine ⟨⟨w, first⟩ :: i :: items, ?_, .cons (kind_of_symbol hc) commas, ?_⟩
      · intro j hj
        rcases List.mem_cons.1 hj with rfl | hj
        · exact he.whole List.nil_suffix
        · exact hi j hj
      · rw [List.map_cons, bares, same, same', ← bares]

end

theorem Expr.reread_whole {e : Expr} (valid : e.Valid) (faithful : e.faithful = true)
    {w : List Token} (h : w.map Token.symbol = e.symbols) :
    ∃ e', IsExpr .expression w e' ∧ e'.bare = e.bare := by
  obtain ⟨e', he, _, same⟩ := Expr.reread valid faithful h
  exact ⟨e', he.whole List.nil_suffix, same⟩

theorem Expr.reread_or {e : Option Expr} (valid : ∀ x ∈ e, x.Valid)
    (faithful : e.all Expr.faithful = true) {w : List Token}
    (h : w.map Token.symbol = Expr.symbolsOr e) :
    ∃ e', IsOptional w e' ∧ e'.map Expr.bare = e.map Expr.bare := by
  cases e with
  | none =>
    rw [List.map_eq_nil_iff.1 h]
    exact ⟨none, .absent, rfl⟩
  | some e =>
    obtain ⟨e', he, same⟩ := Expr.reread_whole (valid e rfl) faithful h
    exact ⟨some e', .present he, congrArg some same⟩

/-! ## statements -/

mutual

theorem Stmt.reread {s : Stmt} (valid : s.Valid) (faithful : s.faithful = true) {w : List Token}
    (h : w.map Token.symbol = s.symbols) : ∃ s', IsStmt w s' ∧ s'.bare = s.bare := by
  match s with
  | .block _ _ body =>
    simp only [symbols, List.cons_append, List.map_eq_append_iff, List.map_eq_cons_iff,
      List.map_eq_nil_iff] at h
    obtain ⟨l, _, rfl, hl, u, _, rfl, hu, r, _, rfl, hr, rfl⟩ := h
    obtain ⟨items, rfl, hi, same⟩ := Stmt.reread_all valid faithful hu
    exact ⟨_, .block (kind_of_symbol hl) hi (kind_of_symbol hr), by simp only [bare, same]⟩
  | .declare _ name init =>
    simp only [symbols, List.cons_append, List.map_eq_append_iff, List.map_eq_cons_iff,
      List.map_eq_nil_iff] at h
    obtain ⟨t, _, rfl, ht, n, _, rfl, hn, a, _, rfl, ha, u, _, rfl, hu, c, _, rfl, hc, rfl⟩ := h
    obtain ⟨e', he, same⟩ := Expr.reread_whole valid.2 faithful hu
    exact ⟨_, .declare (kind_of_symbol ht) (kind_of_symbol hn) (kind_of_symbol ha) he
      (kind_of_symbol hc), by simp only [bare, same, spelling_of_symbol hn]⟩
  | .expr _ e =>
    simp only [symbols, List.map_eq_append_iff, List.map_eq_cons_iff, List.map_eq_nil_iff] at h
    obtain ⟨u, _, rfl, hu, c, _, rfl, hc, rfl⟩ := h
    obtain ⟨e', he, same⟩ := Expr.reread_whole (e := e) valid faithful hu
    obtain ⟨t, u, rfl⟩ := List.exists_cons_of_ne_nil he.ne_nil
    exact ⟨_, .expr he (kind_of_symbol hc), by simp only [bare, same]⟩
  | .ifThen _ condition consequent =>
    simp only [Stmt.faithful, Bool.and_eq_true] at faithful
    simp only [symbols, List.cons_append, List.map_eq_append_iff, List.map_eq_cons_iff] at h
    obtain ⟨t, _, rfl, ht, l, _, rfl, hl, u, _, rfl, hu, r, v, rfl, hr, hv⟩ := h
    obtain ⟨e', he, same⟩ := Expr.reread_whole valid.1 faithful.1 hu
    obtain ⟨s', hs, same'⟩ := Stmt.reread valid.2 faithful.2 hv
    exact ⟨_, .ifThen (kind_of_symbol ht) (kind_of_symbol hl) he (kind_of_symbol hr) hs,
      by simp only [bare, same, same']⟩
  | .ifElse _ condition consequent alternative =>
    simp only [Stmt.faithful, Bool.and_eq_true] at faithful
    simp only [symbols, List.cons_append, List.append_assoc, List.map_eq_append_iff,
      List.map_eq_cons_iff] at h
    obtain ⟨t, _, rfl, ht, l, _, rfl, hl, u, _, rfl, hu, r, _, rfl, hr, v, _, rfl, hv, o, x, rfl,
      ho, hx⟩ := h
    obtain ⟨e', he, same⟩ := Expr.reread_whole valid.1 faithful.1.1 hu
    obtain ⟨s', hs, same'⟩ := Stmt.reread valid.2.1 faithful.1.2 hv
    obtain ⟨a', ha, same''⟩ := Stmt.reread valid.2.2 faithful.2 hx
    have whole := IsStmt.ifElse (kind_of_symbol ht) (kind_of_symbol hl) he (kind_of_symbol hr) hs
      (kind_of_symbol ho) ha
    simp only [List.cons_append, List.append_assoc] at whole
    exact ⟨_, whole, by simp only [bare, same, same', same'']⟩
  | .while _ condition body =>
    simp only [Stmt.faithful, Bool.and_eq_true] at faithful
    simp only [symbols, List.cons_append, List.map_eq_append_iff, List.map_eq_cons_iff] at h
    obtain ⟨t, _, rfl, ht, l, _, rfl, hl, u, _, rfl, hu, r, v, rfl, hr, hv⟩ := h
    obtain ⟨e', he, same⟩ := Expr.reread_whole valid.1 faithful.1 hu
    obtain ⟨s', hs, same'⟩ := Stmt.reread valid.2 faithful.2 hv
    exact ⟨_, .while (kind_of_symbol ht) (kind_of_symbol hl) he (kind_of_symbol hr) hs,
      by simp only [bare, same, same']⟩
  | .for _ init condition update body =>
    simp only [Stmt.faithful, Bool.and_eq_true] at faithful
    simp only [symbols, List.cons_append, List.append_assoc, List.map_eq_append_iff,
      List.map_eq_cons_iff] at h
    obtain ⟨t, _, rfl, ht, l, _, rfl, hl, x, _, rfl, hx, m, _, rfl, hm, y, _, rfl, hy, n, _, rfl,
      hn, z, _, rfl, hz, r, v, rfl, hr, hv⟩ := h
    obtain ⟨i', hi, same⟩ := Expr.reread_or valid.1 faithful.1.1.1 hx
    obtain ⟨c', hc, same'⟩ := Expr.reread_or valid.2.1 faithful.1.1.2 hy
    obtain ⟨u', hu, same''⟩ := Expr.reread_or valid.2.2.1 faithful.1.2 hz
    obtain ⟨s', hs, sameBody⟩ := Stmt.reread valid.2.2.2 faithful.2 hv
    have whole := IsStmt.for (kind_of_symbol ht) (kind_of_symbol hl) hi (kind_of_symbol hm) hc
      (kind_of_symbol hn) hu (kind_of_symbol hr) hs
    simp only [List.cons_append, List.append_assoc] at whole
    exact ⟨_, whole, by simp only [bare, same, same', same'', sameBody]⟩
  | .break _ =>
    simp only [symbols, List.map_eq_cons_iff, List.map_eq_nil_iff] at h
    obtain ⟨t, _, rfl, ht, c, _, rfl, hc, rfl⟩ := h
    exact ⟨_, .break (kind_of_symbol ht) (kind_of_symbol hc), rfl⟩
  | .return _ value =>
    simp only [symbols, List.cons_append, List.map_eq_append_iff, List.map_eq_cons_iff,
      List.map_eq_nil_iff] at h
    obtain ⟨t, _, rfl, ht, u, _, rfl, hu, c, _, rfl, hc, rfl⟩ := h
    obtain ⟨e', he, same⟩ := Expr.reread_or valid faithful hu
    exact ⟨_, .return (kind_of_symbol ht) he (kind_of_symbol hc), by simp only [bare, same]⟩

theorem Stmt.reread_all {ss : List Stmt} (valid : Stmt.AllValid ss)
    (faithful : Stmt.allFaithful ss = true) {w : List Token}
    (h : w.map Token.symbol = Stmt.symbolsAll ss) :
    ∃ items : List (Piece Stmt), items.flatMap (·.tokens) = w ∧
      (∀ i ∈ items, IsStmt i.tokens i.tree) ∧ Stmt.bares (items.map (·.tree)) = Stmt.bares ss := by
  match ss with
  | [] =>
    rw [List.map_eq_nil_iff.1 h]
    exact ⟨[], rfl, by simp, rfl⟩
  | s :: ss =>
    simp only [Stmt.allFaithful, Bool.and_eq_true] at faithful
    simp only [symbolsAll, List.map_eq_append_iff] at h
    obtain ⟨w, u, rfl, hw, hu⟩ := h
    obtain ⟨s', hs, same⟩ := Stmt.reread valid.1 faithful.1 hw
    obtain ⟨items, rfl, hi, same'⟩ := Stmt.reread_all valid.2 faithful.2 hu
    refine ⟨⟨w, s'⟩ :: items, rfl, ?_, by rw [List.map_cons, bares, same, same', ← bares]⟩
    intro i hi'
    rcases List.mem_cons.1 hi' with rfl | hi'
    · exact hs
    · exact hi i hi'

end

/-! ## classes -/

theorem Formal.reread {f : Formal} {w : List Token} (h : w.map Token.symbol = f.symbols) :
    ∃ f', IsFormal w f' ∧ f'.bare = f.bare := by
  simp only [symbols, List.map_eq_cons_iff, List.map_eq_nil_iff] at h
  obtain ⟨t, _, rfl, ht, n, _, rfl, hn, rfl⟩ := h
  exact ⟨_, .intro (kind_of_symbol ht) (kind_of_symbol hn),
    by simp only [bare, spelling_of_symbol ht, spelling_of_symbol hn]⟩

theorem Formal.reread_all {fs : List Formal} {w : List Token}
    (h : w.map Token.symbol = Formal.symbolsAll fs) :
    ∃ items : List (Piece Formal), (∀ i ∈ items, IsFormal i.tokens i.tree) ∧
      Separated (items.map (·.tokens)) w ∧
      (items.map (·.tree)).map Formal.bare = fs.map Formal.bare := by
  induction fs generalizing w with
  | nil =>
    rw [List.map_eq_nil_iff.1 h]
    exact ⟨[], by simp, .nil, rfl⟩
  | cons f fs ih =>
    cases fs with
    | nil =>
      obtain ⟨f', hf, same⟩ := Formal.reread h
      exact ⟨[⟨w, f'⟩], by simpa using hf, .one, by simp [same]⟩
    | cons f' fs =>
      simp only [symbolsAll, List.map_eq_append_iff, List.map_eq_cons_iff] at h
      obtain ⟨w, _, rfl, hw, c, u, rfl, hc, hu⟩ := h
      obtain ⟨first, hf, same⟩ := Formal.reread hw
      obtain ⟨items, hi, commas, same'⟩ := ih hu
      cases items with
      | nil => cases same'
      | cons i items =>
        refine ⟨⟨w, first⟩ :: i :: items, ?_, .cons (kind_of_symbol hc) commas, ?_⟩
        · intro j hj
          rcases List.mem_cons.1 hj with rfl | hj
          · exact hf
          · exact hi j hj
        · rw [List.map_cons, List.map_cons, same, same', ← List.map_cons]

/-- A row is reread if each of its things is. -/
theorem reread_row {α : Type} {P : List Token → α → Prop} {symbols : α → List Symbol}
    {bare : α → α} {xs : List α}
    (hx : ∀ x ∈ xs, ∀ w, w.map Token.symbol = symbols x → ∃ x', P w x' ∧ bare x' = bare x)
    {w : List Token} (h : w.map Token.symbol = xs.flatMap symbols) :
    ∃ items : List (Piece α), items.flatMap (·.tokens) = w ∧ (∀ i ∈ items, P i.tokens i.tree) ∧
      (items.map (·.tree)).map bare = xs.map bare := by
  induction xs generalizing w with
  | nil =>
    rw [List.map_eq_nil_iff.1 h]
    exact ⟨[], rfl, by simp, rfl⟩
  | cons x xs ih =>
    simp only [List.flatMap_cons, List.map_eq_append_iff] at h
    obtain ⟨w, u, rfl, hw, hu⟩ := h
    obtain ⟨x', hx', same⟩ := hx x (by simp) w hw
    obtain ⟨items, rfl, hi, same'⟩ := ih (fun y hy => hx y (by simp [hy])) hu
    refine ⟨⟨w, x'⟩ :: items, rfl, ?_, by rw [List.map_cons, List.map_cons, same, same',
      ← List.map_cons]⟩
    intro i hi'
    rcases List.mem_cons.1 hi' with rfl | hi'
    · exact hx'
    · exact hi i hi'

theorem Member.reread {m : Member} (valid : m.Valid) (faithful : m.faithful = true)
    {w : List Token} (h : w.map Token.symbol = m.symbols) :
    ∃ m', IsMember w m' ∧ m'.bare = m.bare := by
  cases m with
  | field _ type name init =>
    cases init with
    | none =>
      simp only [symbols, List.map_eq_cons_iff, List.map_eq_nil_iff] at h
      obtain ⟨t, _, rfl, ht, n, _, rfl, hn, c, _, rfl, hc, rfl⟩ := h
      exact ⟨_, .field (kind_of_symbol ht) (kind_of_symbol hn) (kind_of_symbol hc),
        by simp only [bare, spelling_of_symbol ht, spelling_of_symbol hn, Option.map_none]⟩
    | some e =>
      simp only [symbols, List.cons_append, List.map_eq_append_iff, List.map_eq_cons_iff,
        List.map_eq_nil_iff] at h
      obtain ⟨t, _, rfl, ht, n, _, rfl, hn, a, _, rfl, ha, u, _, rfl, hu, c, _, rfl, hc, rfl⟩ := h
      obtain ⟨e', he, same⟩ := Expr.reread_whole (valid.2.2 e rfl) faithful hu
      exact ⟨_, .fieldInit (kind_of_symbol ht) (kind_of_symbol hn) (kind_of_symbol ha) he
        (kind_of_symbol hc), by simp only [bare, spelling_of_symbol ht, spelling_of_symbol hn,
          Option.map_some, same]⟩
  | method _ type name _ formals _ body =>
    obtain ⟨_, _, _, hb⟩ := valid
    simp only [symbols, List.cons_append, List.append_assoc, List.map_eq_append_iff,
      List.map_eq_cons_iff, List.map_eq_nil_iff] at h
    obtain ⟨t, _, rfl, ht, n, _, rfl, hn, l, _, rfl, hl, x, _, rfl, hx, r, _, rfl, hr, b, _, rfl,
      hb', y, _, rfl, hy, c, _, rfl, hc, rfl⟩ := h
    obtain ⟨fs, hf, commas, same⟩ := Formal.reread_all hx
    obtain ⟨items, rfl, hi, same'⟩ := Stmt.reread_all hb faithful hy
    have whole := IsMember.method (kind_of_symbol ht) (kind_of_symbol hn) (kind_of_symbol hl) hf
      commas (kind_of_symbol hr) (kind_of_symbol hb') hi (kind_of_symbol hc)
    simp only [List.cons_append, List.append_assoc] at whole
    exact ⟨_, whole, by simp only [bare, spelling_of_symbol ht, spelling_of_symbol hn, same, same']⟩

theorem isParent_of_symbols {parent : Option String} {w : List Token}
    (h : w.map Token.symbol = ofParent parent) : IsParent w parent := by
  cases parent with
  | none =>
    rw [List.map_eq_nil_iff.1 h]
    exact .absent
  | some name =>
    simp only [ofParent, List.map_eq_cons_iff, List.map_eq_nil_iff] at h
    obtain ⟨e, _, rfl, he, n, _, rfl, hn, rfl⟩ := h
    exact spelling_of_symbol hn ▸ .present (kind_of_symbol he) (kind_of_symbol hn)

theorem ClassDecl.reread (file : String) {c : ClassDecl} (valid : c.Valid)
    (faithful : c.members.all Member.faithful = true) {w : List Token}
    (h : w.map Token.symbol = c.symbols) : ∃ c', IsClass file w c' ∧ c'.bare = c.bare := by
  obtain ⟨_, _, hm⟩ := valid
  rw [List.all_eq_true] at faithful
  simp only [symbols, List.cons_append, List.append_assoc, List.map_eq_append_iff,
    List.map_eq_cons_iff, List.map_eq_nil_iff] at h
  obtain ⟨t, _, rfl, ht, n, _, rfl, hn, x, _, rfl, hx, l, _, rfl, hl, y, _, rfl, hy, r, _, rfl, hr,
    rfl⟩ := h
  obtain ⟨items, rfl, hi, same⟩ := reread_row
    (fun m hm' w hw => Member.reread (hm m hm') (faithful m hm') hw) hy
  have whole := @IsClass.intro file _ _ _ _ _ _ _ (kind_of_symbol ht) (kind_of_symbol hn)
    (isParent_of_symbols hx) (kind_of_symbol hl) hi (kind_of_symbol hr)
  simp only [List.cons_append, List.append_assoc] at whole
  exact ⟨_, whole, by simp only [bare, spelling_of_symbol hn, same]⟩

/-- Tokens with the symbols of a faithful program are derived as a program like it. -/
theorem Program.reread (file : String) (line : Int) {p : Program} (valid : p.Valid)
    (faithful : p.faithful = true) {w : List Token} (h : w.map Token.symbol = p.symbols) :
    ∃ p', IsProgram file line w p' ∧ p'.bare = p.bare := by
  rw [Program.faithful, List.all_eq_true] at faithful
  obtain ⟨items, rfl, hi, same⟩ := reread_row
    (fun c hc w hw => ClassDecl.reread file (valid c hc) (faithful c hc) hw) h
  exact ⟨_, .intro hi, by simp only [bare, same]⟩

end BantamSyntax
