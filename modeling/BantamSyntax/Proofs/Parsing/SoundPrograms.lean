import BantamSyntax.Proofs.Parsing.SoundExpressions

/-!
# Soundness of the rules for programs

Statements, classes and programs are read as the grammar derives them, each `else` at the nearest
`if`.
-/
namespace BantamSyntax
namespace Grammar

open BantamSyntax.Parser

variable {file : String} {ts : List Token} {t : Token} {n : Nat}

/-! ## statements -/

/-- A statement that was read: no `else` is left after it that would belong to it. -/
structure IsRead (w : List Token) (s : Stmt) (us : List Token) : Prop where
  derived : IsStmt w s
  settled : s.settled = true
  nearest : s.dangles = true → ∀ t vs, us = t :: vs → t.kind ≠ .elseWord

/-- The rule for whole statements, which may be asked to read up to `n` tokens. -/
def ReadsStmt (file : String) (x : ParserM Stmt) (n : Nat) : Prop :=
  ∀ us, us.length ≤ n → Reads file x us IsRead

theorem IsRead.of_closed {w : List Token} {s : Stmt} (h : IsStmt w s) (hs : s.settled = true)
    (hd : s.dangles = false) : IsRead w s ts :=
  ⟨h, hs, fun h => absurd (hd.symm.trans h) (by simp)⟩

section

variable {x : ParserM Expr} {y : ParserM Stmt} {us : List Token}

theorem optional_reads {closing : TokenKind} (hx : ReadsExpr file x n .expression)
    (ts : List Token) (hn : ts.length ≤ n) :
    Reads file (optional closing x) ts fun w e _ => IsOptional w e := by
  refine .of_cons fun t us e => ?_
  subst e
  refine .ifCheck (fun _ => .pure .absent) fun _ => .bind (hx _ hn) fun w e vs _ he => .pure ?_
  rw [List.append_nil]
  exact .present he

theorem breakStatement_reads (word : t.kind = .breakWord) :
    Reads file breakStatement (t :: us) IsRead :=
  .take (by rw [word]; rfl) <| .expect rfl fun _ _ _ closing => .pure <|
    .of_closed (.break word closing) rfl rfl

theorem returnStatement_reads (hx : ReadsExpr file x n .expression) (word : t.kind = .returnWord)
    (hn : us.length ≤ n) : Reads file (returnStatement x) (t :: us) IsRead := by
  refine .take (by rw [word]; rfl) (.bind (optional_reads hx us hn) fun w value vs _ hv => ?_)
  exact .expect rfl fun s _ _ closing => .pure (.of_closed (.return word hv closing) rfl rfl)

theorem declaration_reads (hx : ReadsExpr file x n .expression) (word : t.kind = .varWord)
    (hn : us.length ≤ n) : Reads file (declaration x) (t :: us) IsRead := by
  refine .take (by rw [word]; rfl) (.name fun m vs e name => .expect rfl fun a ws e' sign => ?_)
  subst e e'
  simp only [List.length_cons] at hn
  refine .bind (hx ws (by omega)) fun w e _ _ he => .expect rfl fun s _ _ closing => .pure ?_
  exact .of_closed (.declare word name sign he closing) rfl rfl

theorem expressionStatement_reads (hx : ReadsExpr file x n .expression) (hn : ts.length ≤ n) :
    Reads file (expressionStatement x) ts IsRead := by
  refine .of_cons fun t us e => ?_
  subst e
  refine .token (.bind (hx _ hn) fun w e vs h he => .expect rfl fun s _ _ closing => .pure ?_)
  obtain ⟨t', w, rfl⟩ := List.exists_cons_of_ne_nil he.ne_nil
  obtain ⟨rfl, _⟩ := List.cons.inj h
  exact .of_closed (.expr he closing) rfl rfl

theorem body_reads {steps : Nat} (hy : ReadsStmt file y n) (hs : ts.length ≤ steps + 1)
    (hn : ts.length ≤ n + 1) :
    Reads file (body steps y) ts fun w b _ => ∃ l r u, w = l :: u ++ [r] ∧
      l.kind = .leftBrace ∧ r.kind = .rightBrace ∧ b.1 = l.line ∧
      IsRow (fun w s => IsStmt w s ∧ s.settled = true) u b.2 := by
  refine .expect rfl fun l vs e opening => ?_
  subst e
  simp only [List.length_cons, Nat.add_le_add_iff_right] at hs hn
  have hi : ∀ us, us.length ≤ n →
      Reads file y us fun w s _ => IsStmt w s ∧ s.settled = true := fun us h =>
    (hy us h).imp fun w s vs _ hs => ⟨hs.derived, hs.settled⟩
  refine .bind (untilBrace_reads hi (fun w s h => h.1.ne_nil) steps hs hn) fun u ss _ _ hss => ?_
  exact .expect rfl fun r _ _ closing => .pure ⟨l, r, u, by simp, opening, closing, rfl, hss⟩

theorem block_reads {steps : Nat} (hy : ReadsStmt file y n) (hs : ts.length ≤ steps + 1)
    (hn : ts.length ≤ n + 1) : Reads file (block steps y) ts IsRead := by
  refine .bind (body_reads hy hs hn) fun w b vs _ h => .pure ?_
  obtain ⟨l, r, u, rfl, opening, closing, hb, items, hi, hss, rfl⟩ := h
  obtain ⟨line, ss⟩ := b
  cases hb
  cases hi
  rw [List.append_nil]
  refine .of_closed (.block opening (fun i hi => (hss i hi).1) closing) ?_ rfl
  exact Stmt.allSettled_iff.2 (List.forall_mem_map.2 fun i hi => (hss i hi).2)

theorem ifStatement_reads (hx : ReadsExpr file x n .expression) (hy : ReadsStmt file y n)
    (word : t.kind = .ifWord) (hn : us.length ≤ n) :
    Reads file (ifStatement x y) (t :: us) IsRead := by
  refine .take (by rw [word]; rfl) (.expect rfl fun l vs e opening => ?_)
  subst e
  simp only [List.length_cons] at hn
  refine .bind (hx vs (by omega)) fun w condition ws e he => ?_
  have hws := congrArg List.length e
  refine .expect rfl fun r xs e closing => ?_
  subst e
  simp only [List.length_append, List.length_cons] at hws
  refine .bind (hy xs (by omega)) fun u consequent ys e hs => .of_cons fun s zs e' => ?_
  subst e'
  have hys := congrArg List.length e
  simp only [List.length_append, List.length_cons] at hys
  refine .ifTakeIf rfl (fun other => ?_) fun other => .pure ?_
  · refine .bind (hy zs (by omega)) fun v alternative _ _ ha => .pure ?_
    have closed : consequent.dangles = false :=
      Bool.eq_false_iff.2 fun h => hs.nearest h s zs rfl other
    have := IsStmt.ifElse word opening he closing hs.derived other ha.derived
    refine ⟨by simpa using this, ?_, ha.nearest⟩
    simp [Stmt.settled, closed, hs.settled, ha.settled]
  · rw [List.append_nil]
    refine ⟨.ifThen word opening he closing hs.derived, hs.settled, fun _ _ _ e => ?_⟩
    cases e
    exact other

theorem whileStatement_reads (hx : ReadsExpr file x n .expression) (hy : ReadsStmt file y n)
    (word : t.kind = .whileWord) (hn : us.length ≤ n) :
    Reads file (whileStatement x y) (t :: us) IsRead := by
  refine .take (by rw [word]; rfl) (.expect rfl fun l vs e opening => ?_)
  subst e
  simp only [List.length_cons] at hn
  refine .bind (hx vs (by omega)) fun w condition ws e he => ?_
  have hws := congrArg List.length e
  refine .expect rfl fun r xs e closing => ?_
  subst e
  simp only [List.length_append, List.length_cons] at hws
  refine .bind (hy xs (by omega)) fun u body _ _ hs => .pure ?_
  rw [List.append_nil]
  exact ⟨.while word opening he closing hs.derived, hs.settled, hs.nearest⟩

theorem forStatement_reads (hx : ReadsExpr file x n .expression) (hy : ReadsStmt file y n)
    (word : t.kind = .forWord) (hn : us.length ≤ n) :
    Reads file (forStatement x y) (t :: us) IsRead := by
  refine .take (by rw [word]; rfl) (.expect rfl fun l vs e opening => ?_)
  subst e
  simp only [List.length_cons] at hn
  refine .bind (optional_reads hx vs (by omega)) fun w init ws e hw => ?_
  have hws := congrArg List.length e
  refine .expect rfl fun m ws e initEnd => ?_
  subst e
  simp only [List.length_append, List.length_cons] at hws
  refine .bind (optional_reads hx ws (by omega)) fun c condition xs e hc => ?_
  have hxs := congrArg List.length e
  refine .expect rfl fun k xs e conditionEnd => ?_
  subst e
  simp only [List.length_append, List.length_cons] at hxs
  refine .bind (optional_reads hx xs (by omega)) fun d update ys e hd => ?_
  have hys := congrArg List.length e
  refine .expect rfl fun r ys e closing => ?_
  subst e
  simp only [List.length_append, List.length_cons] at hys
  refine .bind (hy ys (by omega)) fun u body _ _ hs => .pure ?_
  have := IsStmt.for word opening hw initEnd hc conditionEnd hd closing hs.derived
  exact ⟨by simpa using this, hs.settled, hs.nearest⟩

end

theorem statement_reads (n : Nat) : ReadsStmt file (statement n) n := by
  induction n with
  | zero => exact fun ts hn => .of_cons fun t us e => by simp [e] at hn
  | succ n ih =>
    refine fun ts hn => .of_cons fun t us e => ?_
    subst e
    have hx : ReadsExpr file (expression (n + 1)) (n + 1) .expression := expression_reads (n + 1)
    have hx' : ReadsExpr file (expression (n + 1)) n .expression := fun us h => hx us (by omega)
    have hn' : us.length ≤ n := by simpa using hn
    refine .token ?_
    split
    · exact ifStatement_reads hx' ih ‹_› hn'
    · exact whileStatement_reads hx' ih ‹_› hn'
    · exact forStatement_reads hx' ih ‹_› hn'
    · exact breakStatement_reads ‹_›
    · exact returnStatement_reads hx' ‹_› hn'
    · exact declaration_reads hx' ‹_› hn'
    · exact block_reads ih (by simpa using Nat.le_succ_of_le hn') hn
    · exact expressionStatement_reads hx hn

/-! ## classes -/

theorem formal_reads : Reads file formal ts fun w f _ => IsFormal w f := by
  refine .of_cons fun t us e => ?_
  subst e
  refine .token (.name fun t' _ e type => .name fun m _ _ name => .pure ?_)
  cases e
  exact .intro type name

theorem methodRest_reads {type name l : Token} {us : List Token} (ht : type.kind = .identifier)
    (hm : name.kind = .identifier) (opening : l.kind = .leftParen) (hn : us.length ≤ n) :
    Reads file (methodRest n type.line type.spelling name.spelling) (l :: us) fun w m _ =>
      IsMember (type :: name :: w) m ∧ m.settled = true := by
  refine .take (by rw [opening]; rfl) ?_
  refine .bind (commaList_reads (fun us _ => formal_reads) hn hn) fun u formals vs e hf => ?_
  have hvs := congrArg List.length e
  refine .expect rfl fun r ws e closing => ?_
  subst e
  simp only [List.length_append, List.length_cons] at hvs
  refine .of_cons fun b xs e => ?_
  subst e
  refine .ifCheck (fun _ => ?_) fun _ => .fail
  refine .bind (body_reads (statement_reads n) (by omega) (by omega)) fun w b _ _ hb => .pure ?_
  obtain ⟨params, rfl, hp, hs⟩ := hf
  obtain ⟨l', r', v, rfl, bodyOpening, bodyClosing, hl, items, hi, hss, rfl⟩ := hb
  obtain ⟨line, ss⟩ := b
  cases hl
  cases hi
  have := IsMember.method ht hm opening hp hs closing bodyOpening (fun i hi => (hss i hi).1)
    bodyClosing
  refine ⟨by simpa using this, ?_⟩
  exact Stmt.allSettled_iff.2 (List.forall_mem_map.2 fun i hi => (hss i hi).2)

theorem member_reads (hn : ts.length ≤ n) :
    Reads file (member n) ts fun w m _ => IsMember w m ∧ m.settled = true := by
  refine .of_cons fun t us e => ?_
  subst e
  simp only [List.length_cons] at hn
  refine .token (.name fun t' vs e type => .name fun m ws e' name => .of_cons fun a xs e'' => ?_)
  cases e
  subst e' e''
  simp only [List.length_cons] at hn
  refine .ifTakeIf rfl (fun sign => ?_) fun _ => .ifTakeIf rfl (fun closing => ?_) fun _ => ?_
  · refine .bind (expression_reads n xs (by omega)) fun w e _ _ he => ?_
    exact .expect rfl fun s _ _ closing => .pure ⟨.fieldInit type name sign he closing, rfl⟩
  · exact .pure ⟨.field type name closing, rfl⟩
  · exact .ifCheck (fun opening => methodRest_reads type name opening (by omega)) fun _ => .fail

theorem IsMember.ne_nil {w : List Token} {m : Member} (h : IsMember w m) : w ≠ [] := by
  cases h <;> simp

/-- The end of a class, of which everything before the opening brace has been taken. -/
theorem classRest_reads {t name : Token} {w : List Token} {parent : Option String}
    (word : t.kind = .classWord) (hm : name.kind = .identifier) (heading : IsParent w parent)
    (hn : ts.length ≤ n) :
    Reads file (do
      let membersLine := (← expect .leftBrace .classOpening).line
      let members ← untilBrace (member n) n
      let _ ← expect .rightBrace .classClosing
      return (⟨t.line, name.spelling, parent, membersLine, members, some (← get).file⟩ :
        ClassDecl)) ts fun u c _ =>
      IsClass file (t :: name :: w ++ u) c ∧ c.members.all Member.settled = true := by
  refine .expect rfl fun l us e opening => ?_
  subst e
  simp only [List.length_cons] at hn
  refine .bind (untilBrace_reads (fun us h => member_reads h) (fun w m h => h.1.ne_nil) n
    (by omega) (by omega)) fun u ms vs e hms => .expect rfl fun r ws _ closing => ?_
  obtain ⟨items, rfl, hi, rfl⟩ := hms
  refine .of_runs (w := []) (a := ⟨t.line, name.spelling, parent, l.line, items.map (·.tree),
    some file⟩) (fun p hp => ⟨p, by rw [← hp.name_eq]; rfl, hp⟩) ⟨?_, ?_⟩
  · have : IsClass file _ _ := .intro word hm heading opening (fun i h => (hi i h).1) closing
    simpa using this
  · simpa using fun i h => (hi i h).2

theorem classDeclaration_reads (hn : ts.length ≤ n) :
    Reads file (classDeclaration n) ts fun w c _ =>
      IsClass file w c ∧ c.members.all Member.settled = true := by
  refine .of_cons fun t us e => ?_
  subst e
  refine .token (.expect rfl fun t' us e word => .name fun m vs e' name =>
    .of_cons fun x ws e'' => ?_)
  cases e
  subst e' e''
  simp only [List.length_cons] at hn
  by_cases extended : x.kind = .extendsWord
  · refine .step (runs_takeIf extended rfl) ?_
    rw [if_pos rfl]
    refine .of_cons fun p us e => ?_
    subst e
    by_cases parent : p.kind = .identifier
    · refine .step ((runs_name parent).bind (runs_pure (some p.spelling))) ?_
      simp only [List.length_cons] at hn
      exact classRest_reads word name (.present extended parent) (by omega)
    · exact .of_none (runs_name_none parent).bind_none.bind_none
  · refine .stay (runs_takeIf_false extended) ?_
    rw [if_neg (by simp)]
    refine .stay (runs_pure none) ?_
    exact classRest_reads word name .absent (by simp only [List.length_cons]; omega)

theorem IsClass.ne_nil {w : List Token} {c : ClassDecl} (h : IsClass file w c) : w ≠ [] := by
  cases h
  simp

/-- Only the end of the text ends the classes. -/
theorem classes_reads (k : Nat) (ts : List Token) (hk : ts.length ≤ k) (hn : ts.length ≤ n) :
    Reads file (classes n k) ts fun w cs us =>
      IsRow (fun w c => IsClass file w c ∧ c.members.all Member.settled = true) w cs ∧
        ∃ t vs, us = t :: vs ∧ t.kind = .endOfFile := by
  induction k generalizing ts with
  | zero => exact .of_cons fun t us e => by simp [e] at hk
  | succ k ih =>
    refine .of_cons fun t us e => ?_
    subst e
    refine .ifCheck (fun last => .pure ⟨.nil, t, us, rfl, last⟩) fun _ => ?_
    refine .bind (classDeclaration_reads hn) fun w c vs e hc => ?_
    have := congrArg List.length e
    have := List.length_pos_iff.2 hc.1.ne_nil
    simp only [List.length_append, List.length_cons] at *
    refine .bind (ih vs (by omega) (by omega)) fun u cs _ _ hcs => .pure ?_
    rw [List.append_nil]
    exact ⟨.cons hc hcs.1, hcs.2⟩

theorem program_reads (hn : (t :: ts).length ≤ n) :
    Reads file (program n) (t :: ts) fun w p us =>
      IsProgram file t.line w p ∧ p.settled = true ∧
        ∃ t vs, us = t :: vs ∧ t.kind = .endOfFile := by
  refine .token (.bind (classes_reads n _ hn hn) fun w cs us _ h => .pure ?_)
  obtain ⟨⟨items, rfl, hi, rfl⟩, last⟩ := h
  rw [List.append_nil]
  refine ⟨.intro fun i h => (hi i h).1, ?_, last⟩
  exact List.all_eq_true.2 (List.forall_mem_map.2 fun i h => (hi i h).2)

end Grammar
end BantamSyntax
