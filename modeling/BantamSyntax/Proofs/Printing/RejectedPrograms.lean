import BantamSyntax.Proofs.Printing.RejectedStatements

/-!
# Rejection of programs

A program with a member that is rejected is rejected, as the members before it are read.
-/
namespace BantamSyntax

open Grammar Token BantamSyntax.Symbol BantamSyntax.Parser

variable {file : String}

/-! ## classes -/

theorem Member.settled_of_bare {m m' : Member} (same : m'.bare = m.bare)
    (h : m.settled = true) : m'.settled = true := by
  rw [← m'.settled_bare, same, m.settled_bare, h]

theorem ClassDecl.settled_of_bare {c c' : ClassDecl} (same : c'.bare = c.bare)
    (h : c.members.all Member.settled = true) : c'.members.all Member.settled = true := by
  have members := congrArg (fun d => d.members.all Member.settled) same
  simpa [bare, List.all_map, Function.comp_def, h] using members

theorem Member.exists_first {m : Member} {w : List Token} (h : w.map Token.symbol = m.symbols) :
    ∃ t v, w = t :: v ∧ t.kind = .identifier := by
  have begins : ∃ x xs, m.symbols = x :: xs ∧ x.1 = .identifier := by
    cases m with
    | field _ _ _ init => cases init <;> exact ⟨_, _, rfl, rfl⟩
    | method => exact ⟨_, _, rfl, rfl⟩
  obtain ⟨x, xs, hx, first⟩ := begins
  rw [hx, List.map_eq_cons_iff] at h
  obtain ⟨t, v, rfl, rfl, _⟩ := h
  exact ⟨t, v, rfl, first⟩

theorem Member.rejected {m : Member} (valid : m.Valid) (settled : m.settled = true)
    (unfaithful : m.faithful = false) {w : List Token} (h : w.map Token.symbol = m.symbols)
    {n : Nat} {us : List Token} (hn : (w ++ us).length ≤ n) :
    Runs file (member n) (w ++ us) none := by
  cases m with
  | field _ type name init =>
    cases init with
    | none => cases unfaithful
    | some e =>
      simp only [symbols, List.cons_append, List.map_eq_append_iff, List.map_eq_cons_iff] at h
      obtain ⟨t, _, rfl, ht, m, _, rfl, hm, a, _, rfl, ha, u, v, rfl, hu, _⟩ := h
      have rejected : Rejects file (u ++ v) .expression :=
        (Expr.rejected_whole (valid.2.2 e rfl) unfaithful hu).append v
      simp only [List.cons_append, List.length_cons] at hn
      refine runs_token.bind ((runs_name (kind_of_symbol ht)).bind ?_)
      refine (runs_name (kind_of_symbol hm)).bind (runs_ifTakeIf (kind_of_symbol ha) rfl ?_)
      exact (rejected.expression (by omega)).bind_none
  | method _ type name _ formals _ body =>
    obtain ⟨_, _, _, hb⟩ := valid
    simp only [symbols, List.cons_append, List.append_assoc, List.map_eq_append_iff,
      List.map_eq_cons_iff] at h
    obtain ⟨t, _, rfl, ht, m, _, rfl, hm, l, _, rfl, hl, x, _, rfl, hx, r, _, rfl, hr, b, _, rfl,
      hb', y, v, rfl, hy, _⟩ := h
    obtain ⟨fs, hf, commas, _⟩ := Formal.reread_all hx
    have noAssign : l.kind ≠ .assign := by simp [kind_of_symbol hl]
    have noSemicolon : l.kind ≠ .semicolon := by simp [kind_of_symbol hl]
    simp only [List.append_assoc, List.cons_append, List.length_append, List.length_cons] at hn ⊢
    have rejected : Runs file (untilBrace (statement n) n) (y ++ (v ++ us)) none :=
      Stmt.rejected_all hb settled unfaithful hy (by simp only [List.length_append]; omega)
        (by simp only [List.length_append]; omega)
    refine runs_token.bind ((runs_name (kind_of_symbol ht)).bind ?_)
    refine (runs_name (kind_of_symbol hm)).bind (runs_ifTakeIf_not noAssign ?_)
    refine runs_ifTakeIf_not noSemicolon (runs_ifCheck (kind_of_symbol hl) ?_)
    apply (runs_take (by rw [kind_of_symbol hl]; rfl)).bind
    refine Runs.bind (parameters_runs hf commas (kind_of_symbol hr) ?_)
      ((runs_expect (kind_of_symbol hr) rfl).bind (runs_ifCheck (kind_of_symbol hb') ?_))
    · simp only [List.length_append, List.length_cons]
      omega
    · exact ((runs_expect (kind_of_symbol hb') rfl).bind rejected.bind_none).bind_none

/-- The members before the first that is rejected are read. -/
theorem Member.rejected_all {ms : List Member} (valid : ∀ m ∈ ms, m.Valid)
    (settled : ms.all Member.settled = true) (unfaithful : ms.all Member.faithful = false)
    {w : List Token} (h : w.map Token.symbol = ms.flatMap Member.symbols) {n k : Nat}
    {us : List Token} (hn : (w ++ us).length ≤ n) (hk : (w ++ us).length ≤ k) :
    Runs file (untilBrace (member n) k) (w ++ us) none := by
  induction ms generalizing w k with
  | nil => cases unfaithful
  | cons m ms ih =>
    rw [List.all_cons, Bool.and_eq_true] at settled
    simp only [List.flatMap_cons, List.map_eq_append_iff] at h
    obtain ⟨w, u, rfl, hw, hu⟩ := h
    rw [List.append_assoc] at hn hk ⊢
    have noBrace {t : Token} (name : t.kind = .identifier) : t.kind ≠ .rightBrace := by simp [name]
    have more {t : Token} (name : t.kind = .identifier) : t.kind ≠ .endOfFile := by simp [name]
    cases hf : m.faithful with
    | false =>
      have rejected : Runs file (member n) (w ++ (u ++ us)) none :=
        Member.rejected (valid m (by simp)) settled.1 hf hw hn
      obtain ⟨t, w, rfl, name⟩ := Member.exists_first hw
      exact untilBrace_first (noBrace name) (more name) hk rejected
    | true =>
      obtain ⟨m', hm, same⟩ := Member.reread (valid m (by simp)) hf hw
      have read : Runs file (member n) (w ++ (u ++ us)) (some (m', u ++ us)) :=
        hm.runs (Member.settled_of_bare same settled.1) hn
      obtain ⟨t, w, rfl, name⟩ := Member.exists_first hw
      have len : (u ++ us).length ≤ n := by
        simp only [List.length_append] at hn ⊢
        omega
      have rejected (k : Nat) (hk : (u ++ us).length ≤ k) :
          Runs file (untilBrace (member n) k) (u ++ us) none :=
        ih (fun m hm => valid m (by simp [hm])) settled.2 (by simpa [hf] using unfaithful) hu len hk
      exact untilBrace_later (noBrace name) (more name) hk read rejected

theorem ClassDecl.rejected {c : ClassDecl} (valid : c.Valid)
    (settled : c.members.all Member.settled = true)
    (unfaithful : c.members.all Member.faithful = false) {w : List Token}
    (h : w.map Token.symbol = c.symbols) {n : Nat} {us : List Token}
    (hn : (w ++ us).length ≤ n) : Runs file (classDeclaration n) (w ++ us) none := by
  obtain ⟨_, _, hm⟩ := valid
  simp only [symbols, List.cons_append, List.append_assoc, List.map_eq_append_iff,
    List.map_eq_cons_iff] at h
  obtain ⟨t, _, rfl, ht, m, _, rfl, hm', x, _, rfl, hx, l, _, rfl, hl, y, v, rfl, hy, _⟩ := h
  simp only [List.append_assoc, List.cons_append, List.length_append, List.length_cons] at hn ⊢
  have rejected : Runs file (untilBrace (member n) n) (y ++ (v ++ us)) none :=
    Member.rejected_all hm settled unfaithful hy (by simp only [List.length_append]; omega)
      (by simp only [List.length_append]; omega)
  refine runs_token.bind ((runs_expect (kind_of_symbol ht) rfl).bind ?_)
  apply (runs_name (kind_of_symbol hm')).bind
  apply (isParent_of_symbols hx).runs (kind_of_symbol hl)
  exact (runs_expect (kind_of_symbol hl) rfl).bind rejected.bind_none

theorem ClassDecl.exists_first {c : ClassDecl} {w : List Token}
    (h : w.map Token.symbol = c.symbols) : ∃ t v, w = t :: v ∧ t.kind = .classWord := by
  simp only [symbols, List.cons_append, List.map_eq_cons_iff] at h
  obtain ⟨t, v, rfl, ht, _⟩ := h
  exact ⟨t, v, rfl, kind_of_symbol ht⟩

/-- The classes before the first that is rejected are read. -/
theorem ClassDecl.rejected_all {cs : List ClassDecl} (valid : ∀ c ∈ cs, c.Valid)
    (settled : ∀ c ∈ cs, c.members.all Member.settled = true)
    (unfaithful : (cs.all fun c => c.members.all Member.faithful) = false) {w : List Token}
    (h : w.map Token.symbol = cs.flatMap ClassDecl.symbols) {n k : Nat} {us : List Token}
    (hn : (w ++ us).length ≤ n) (hk : (w ++ us).length ≤ k) :
    Runs file (classes n k) (w ++ us) none := by
  induction cs generalizing w k with
  | nil => cases unfaithful
  | cons c cs ih =>
    simp only [List.flatMap_cons, List.map_eq_append_iff] at h
    obtain ⟨w, u, rfl, hw, hu⟩ := h
    rw [List.append_assoc] at hn hk ⊢
    have more {t : Token} (word : t.kind = .classWord) : t.kind ≠ .endOfFile := by simp [word]
    cases hf : c.members.all Member.faithful with
    | false =>
      have rejected : Runs file (classDeclaration n) (w ++ (u ++ us)) none :=
        ClassDecl.rejected (valid c (by simp)) (settled c (by simp)) hf hw hn
      obtain ⟨t, w, rfl, word⟩ := ClassDecl.exists_first hw
      cases k with
      | zero => simp at hk
      | succ k => exact runs_ifCheck_not (more word) rejected.bind_none
    | true =>
      obtain ⟨c', hc, same⟩ := ClassDecl.reread file (valid c (by simp)) hf hw
      have read : Runs file (classDeclaration n) (w ++ (u ++ us)) (some (c', u ++ us)) :=
        hc.runs (ClassDecl.settled_of_bare same (settled c (by simp))) hn
      obtain ⟨t, w, rfl, word⟩ := ClassDecl.exists_first hw
      cases k with
      | zero => simp at hk
      | succ k =>
        have len : (u ++ us).length ≤ n ∧ (u ++ us).length ≤ k := by
          simp only [List.length_append, List.length_cons, List.cons_append] at hn hk ⊢
          omega
        have rejected := ih (fun d hd => valid d (by simp [hd]))
          (fun d hd => settled d (by simp [hd])) (by simpa [hf] using unfaithful) hu len.1 len.2
        exact runs_ifCheck_not (more word) (read.bind rejected.bind_none)

/-- The rule for programs rejects the tokens of a program that is not faithful. -/
theorem Program.rejected {p : Program} (valid : p.Valid) (settled : p.settled = true)
    (unfaithful : p.faithful = false) {w : List Token} (h : w.map Token.symbol = p.symbols)
    {n : Nat} {us : List Token} (hn : (w ++ us).length ≤ n) :
    Runs file (program n) (w ++ us) none := by
  rw [Program.settled, List.all_eq_true] at settled
  have rejected : Runs file (Grammar.classes n n) (w ++ us) none :=
    ClassDecl.rejected_all valid settled unfaithful h hn hn
  refine .of_cons fun t vs e => ?_
  rw [e] at rejected ⊢
  exact runs_token.bind rejected.bind_none

end BantamSyntax
