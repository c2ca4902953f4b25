import BantamSyntax.Proofs.Parsing.Derivation

/-!
# Settled derivations

Whatever can be derived has a derivation in which each `else` belongs to the nearest `if`.
-/
namespace BantamSyntax
namespace Grammar

/-! ## statements -/

/-- An `else` after a statement that dangles belongs to the last `if` in it. -/
theorem IsStmt.attach {o : Token} {w v : List Token} {s a : Stmt} (h : IsStmt w s)
    (dangles : s.dangles = true) (settled : s.settled = true) (other : o.kind = .elseWord)
    (ha : IsStmt v a) (ha' : a.settled = true) :
    ∃ s', IsStmt (w ++ o :: v) s' ∧ s'.settled = true := by
  induction h with
  | block | declare | expr | «break» | «return» => cases dangles
  | @ifThen t l r w u e consequent word opening condition closing branch ih =>
    simp only [List.append_assoc, List.cons_append]
    -- The branch may hold an `if` that is nearer to the `else`.
    cases hd : consequent.dangles with
    | true =>
      obtain ⟨s', hs, hs'⟩ := ih hd settled
      exact ⟨.ifThen t.line e s', .ifThen word opening condition closing hs, hs'⟩
    | false =>
      refine ⟨.ifElse t.line e consequent a, ?_, ?_⟩
      · simpa using IsStmt.ifElse word opening condition closing branch other ha
      · simpa [Stmt.settled, hd, ha'] using settled
  | @ifElse t l r c w u x e consequent alternative word opening condition closing branch between
      _ _ ih =>
    simp only [Stmt.settled, Bool.and_eq_true] at settled
    obtain ⟨s', hs, hs'⟩ := ih dangles settled.2
    refine ⟨.ifElse t.line e consequent s', ?_, ?_⟩
    · simpa using IsStmt.ifElse word opening condition closing branch between hs
    · simp only [Stmt.settled, settled.1, hs', Bool.and_self]
  | @«while» t l r w u e body word opening condition closing _ ih =>
    obtain ⟨s', hs, hs'⟩ := ih dangles settled
    refine ⟨.while t.line e s', ?_, hs'⟩
    simpa using IsStmt.while word opening condition closing hs
  | @«for» t l m n r w x y u init condition update body word opening first initEnd second
      conditionEnd third closing _ ih =>
    obtain ⟨s', hs, hs'⟩ := ih dangles settled
    refine ⟨.for t.line init condition update s', ?_, hs'⟩
    simpa using IsStmt.for word opening first initEnd second conditionEnd third closing hs

/-- Each item replaced by one with the same tokens. -/
theorem exists_items {α : Type} {P : List Token → α → Prop} {Q : α → Prop}
    {items : List (Piece α)} (h : ∀ i ∈ items, ∃ x, P i.tokens x ∧ Q x) :
    ∃ items' : List (Piece α), items'.map (·.tokens) = items.map (·.tokens) ∧
      ∀ i ∈ items', P i.tokens i.tree ∧ Q i.tree := by
  induction items with
  | nil => exact ⟨[], rfl, by simp⟩
  | cons i items ih =>
    obtain ⟨x, hx⟩ := h i (by simp)
    obtain ⟨items', hi, h'⟩ := ih fun j hj => h j (by simp [hj])
    exact ⟨⟨i.tokens, x⟩ :: items', by simp [hi], List.forall_mem_cons.2 ⟨hx, h'⟩⟩

theorem flatMap_tokens {α : Type} {items items' : List (Piece α)}
    (h : items'.map (·.tokens) = items.map (·.tokens)) :
    items.flatMap (·.tokens) = items'.flatMap (·.tokens) := by
  rw [List.flatMap_def, List.flatMap_def, h]

theorem IsStmt.settle {w : List Token} {s : Stmt} (h : IsStmt w s) :
    ∃ s', IsStmt w s' ∧ s'.settled = true := by
  induction h with
  | @block l r items opening _ closing ih =>
    obtain ⟨items', he, hi⟩ := exists_items ih
    rw [flatMap_tokens he]
    refine ⟨_, .block opening (fun i hm => (hi i hm).1) closing, ?_⟩
    exact Stmt.allSettled_iff.2 (List.forall_mem_map.2 fun i hm => (hi i hm).2)
  | declare word name sign init closing => exact ⟨_, .declare word name sign init closing, rfl⟩
  | expr h closing => exact ⟨_, .expr h closing, rfl⟩
  | ifThen word opening condition closing _ ih =>
    obtain ⟨s', hs, hs'⟩ := ih
    exact ⟨_, .ifThen word opening condition closing hs, hs'⟩
  | @ifElse t l r o w u v e _ _ word opening condition closing _ other _ ih iha =>
    obtain ⟨s', hs, hs'⟩ := ih
    obtain ⟨a', ha, ha'⟩ := iha
    cases hd : s'.dangles with
    | true =>
      obtain ⟨b, hb, hb'⟩ := hs.attach hd hs' other ha ha'
      refine ⟨.ifThen t.line e b, ?_, hb'⟩
      simpa using IsStmt.ifThen word opening condition closing hb
    | false =>
      refine ⟨_, .ifElse word opening condition closing hs other ha, ?_⟩
      simp [Stmt.settled, hd, hs', ha']
  | «while» word opening condition closing _ ih =>
    obtain ⟨s', hs, hs'⟩ := ih
    exact ⟨_, .while word opening condition closing hs, hs'⟩
  | «for» word opening first initEnd second conditionEnd third closing _ ih =>
    obtain ⟨s', hs, hs'⟩ := ih
    exact ⟨_, .for word opening first initEnd second conditionEnd third closing hs, hs'⟩
  | «break» word closing => exact ⟨_, .break word closing, rfl⟩
  | «return» word result closing => exact ⟨_, .return word result closing, rfl⟩

/-! ## classes -/

theorem IsMember.settle {w : List Token} {m : Member} (h : IsMember w m) :
    ∃ m', IsMember w m' ∧ m'.settled = true := by
  cases h with
  | field type name closing => exact ⟨_, .field type name closing, rfl⟩
  | fieldInit type name sign init closing => exact ⟨_, .fieldInit type name sign init closing, rfl⟩
  | method type name opening parameters commas closing bodyOpening body bodyClosing =>
    obtain ⟨items', he, hi⟩ := exists_items fun i hm => (body i hm).settle
    rw [flatMap_tokens he]
    refine ⟨_, .method type name opening parameters commas closing bodyOpening
      (fun i hm => (hi i hm).1) bodyClosing, ?_⟩
    exact Stmt.allSettled_iff.2 (List.forall_mem_map.2 fun i hm => (hi i hm).2)

theorem IsClass.settle {file : String} {w : List Token} {c : ClassDecl} (h : IsClass file w c) :
    ∃ c', IsClass file w c' ∧ c'.members.all Member.settled = true := by
  cases h with
  | intro word name heading opening members closing =>
    obtain ⟨items', he, hi⟩ := exists_items fun i hm => (members i hm).settle
    rw [flatMap_tokens he]
    refine ⟨_, .intro word name heading opening (fun i hm => (hi i hm).1) closing, ?_⟩
    exact List.all_eq_true.2 (List.forall_mem_map.2 fun i hm => (hi i hm).2)

theorem IsProgram.settle {file : String} {line : Int} {w : List Token} {p : Program}
    (h : IsProgram file line w p) : ∃ p', IsProgram file line w p' ∧ p'.settled = true := by
  cases h with
  | intro classes =>
    obtain ⟨items', he, hi⟩ := exists_items fun i hm => (classes i hm).settle
    rw [flatMap_tokens he]
    refine ⟨_, .intro fun i hm => (hi i hm).1, ?_⟩
    exact List.all_eq_true.2 (List.forall_mem_map.2 fun i hm => (hi i hm).2)

end Grammar
end BantamSyntax
