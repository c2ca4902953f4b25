import BantamSyntax.Proofs.Parsing.SoundPrograms
import BantamSyntax.Proofs.Parsing.Viability

/-!
# Viable rules

Every rule of the grammar is viable for what it reads: wherever it rejects a token, there are tokens
that could have come instead and that complete a program.
-/
namespace BantamSyntax
namespace Grammar

open BantamSyntax.Parser

variable {t : Token} {n : Nat}

/-! ## expressions -/

/-- The tokens are an expression, a variable if the result is one. -/
def Spans (place : Place) (w : List Token) (e : Expr) : Prop :=
  ∃ e', IsExpr place w e' ∧ ∀ v, e = .var v → ∃ v', e' = .var v'

theorem Spans.ne_nil {place : Place} (e : Expr) : ¬ Spans place [] e :=
  fun ⟨_, h, _⟩ => h.ne_nil rfl

theorem Spans.imp {p p' : Place} {w u : List Token} {e : Expr} (h : Spans p w e)
    (he : ∀ e, IsExpr p w e → IsExpr p' u e) : Spans p' u e :=
  let ⟨e', h, var⟩ := h
  ⟨e', he e' h, var⟩

theorem IsExpr.levels {w : List Token} {e : Expr} (h : IsExpr (.level []) w e) (ls : List Level) :
    IsExpr (.level ls) w e := by
  induction ls with
  | nil => exact h
  | cons l ls ih => exact .operand ih

/-- Where an expression is missing, there can be a variable. -/
theorem spans_completable (place : Place) : Completable (Spans place) := by
  have name : IsExpr .primary [.completing .identifier] (.var (.plain 0 "a")) := .var (.plain rfl)
  have lone : IsExpr (.level []) [.completing .identifier] (.var (.plain 0 "a")) :=
    .unary (.unsigned (.unsuffixed name))
  have any : IsExpr place [.completing .identifier] (.var (.plain 0 "a")) := by
    cases place with
    | expression => exact .plain (lone.levels _)
    | level ls => exact lone.levels ls
    | signed => exact .unsigned (.unsuffixed name)
    | suffixed => exact .unsuffixed name
    | primary => exact name
  exact ⟨_, .var (.plain 0 "a"), by simp; decide, _, any, fun _ _ => ⟨_, rfl⟩⟩

/-- The rule for expressions at a place. -/
def ViableExpr (place : Place) (x : ParserM Expr) : Prop :=
  ∀ t, Viable (Spans place) t x

section

variable {x : ParserM Expr}

theorem ViableExpr.exists (h : ViableExpr .expression x) (t : Token) :
    Viable (fun w _ => ∃ e, IsExpr .expression w e) t x :=
  (h t).imp fun _ _ ⟨e, he, _⟩ => ⟨e, he⟩

theorem callRest_viable (hx : ViableExpr .expression x) {w : List Token} {v : Variable}
    (hv : IsVariable w v) (line : Int) (r : Option Variable) (name : String) (t : Token) :
    Viable (fun u => Spans .primary (w ++ u)) t (callRest n x line r name) := by
  refine .ifCheck (fun opening => ?_) fun _ => ?_
  · refine .take (by rw [opening]; rfl) fun u => (commaList_viable hx.exists n u).bind ?_
    rintro args _ ⟨_, items, -, hi, hs⟩ u
    refine .expect rfl fun r closing _ => .done ?_
    obtain ⟨f, w, rfl⟩ := List.exists_cons_of_ne_nil hv.ne_nil
    exact ⟨_, by simpa using IsExpr.call hv opening hi hs closing, nofun⟩
  · have alone : IsExpr .primary (w ++ []) (.var v) := by simpa using IsExpr.var hv
    cases r with
    | none => exact .done ⟨_, alone, fun _ _ => ⟨_, rfl⟩⟩
    | some r => exact .done ⟨_, alone, fun _ _ => ⟨_, rfl⟩⟩

theorem variableOrCall_viable (hx : ViableExpr .expression x) (name : t.kind = .identifier) :
    Viable (Spans .primary) t (variableOrCall n x) := by
  refine .take (by rw [name]; rfl) fun u => ?_
  split
  · rename_i known
    refine .ifTakeIf rfl (fun dot u => .name fun m member u => ?_) fun _ => ?_
    · exact callRest_viable hx (.qualified name known dot member) _ _ _ u
    · exact callRest_viable hx (.plain name) _ _ _ u
  · exact callRest_viable hx (.plain name) _ _ _ u

theorem primary_viable (hx : ViableExpr .expression x) : ViableExpr .primary (primary n x) := by
  refine fun t => .look ?_
  by_cases opening : t.kind = .leftParen
  · rw [if_pos opening]
    refine .move (by rw [opening]; rfl) fun u => (hx u).bind fun w e he u => ?_
    refine .expect rfl fun r closing _ => .done (he.imp fun e he => ?_)
    exact .parens opening he closing
  rw [if_neg opening]
  split
  · rename_i kind h
    exact .move (passes_of_constantKind? h) fun _ => .done ⟨_, .constant h, nofun⟩
  · by_cases name : t.kind = .identifier
    · rw [if_pos name]
      exact variableOrCall_viable hx name
    · rw [if_neg name]
      exact .fail (spans_completable _)

theorem suffixed_viable (hx : ViableExpr .expression x) :
    ViableExpr .suffixed (suffixed n x) := by
  refine fun t => .look ((primary_viable hx t).bind fun w e he u => .look ?_)
  split
  · rename_i op hop
    refine .move (passes_of_suffixOp? hop) fun _ => .done ?_
    obtain ⟨e', he', -⟩ := he
    obtain ⟨f, w, rfl⟩ := List.exists_cons_of_ne_nil he'.ne_nil
    exact ⟨_, .suffix he' hop, nofun⟩
  · exact .done (he.imp fun e he => by simpa using IsExpr.unsuffixed he)

theorem signed_viable (hx : ViableExpr .expression x) (k : Nat) :
    ViableExpr .signed (signed n x k) := by
  induction k with
  | zero => exact fun _ => .stuck (spans_completable _)
  | succ k ih =>
    refine fun t => .look ?_
    split
    · rename_i op hop
      refine .move (passes_of_signOp? hop) fun u => (ih u).bind fun w e he _ => .done ?_
      obtain ⟨e', he', -⟩ := he
      exact ⟨_, by simpa using IsExpr.sign hop he', nofun⟩
    · exact (suffixed_viable hx t).imp fun w e he => he.imp fun e he => .unsigned he

theorem newExpression_viable (word : t.kind = .newWord) :
    Viable (Spans (.level [])) t newExpression :=
  .take (by rw [word]; rfl) fun _ => .name fun c type _ =>
    .expect rfl fun l opening _ => .expect rfl fun r closing _ =>
      .done ⟨_, .new word type opening closing, nofun⟩

theorem castExpression_viable (hx : ViableExpr .expression x) (word : t.kind = .castWord) :
    Viable (Spans (.level [])) t (castExpression x) := by
  refine .take (by rw [word]; rfl) fun _ => .expect rfl fun l opening _ => ?_
  refine .name fun c type _ => .expect rfl fun m comma u => ?_
  refine (hx u).bind fun w e he _ => .expect rfl fun r closing _ => .done ?_
  obtain ⟨e', he', -⟩ := he
  exact ⟨_, .cast word opening type comma he' closing, nofun⟩

theorem unary_viable (hx : ViableExpr .expression x) : ViableExpr (.level []) (unary n x) := by
  refine fun t => .ifCheck newExpression_viable fun _ => ?_
  refine .ifCheck (castExpression_viable hx) fun _ => ?_
  exact (signed_viable hx n t).imp fun w e he => he.imp fun e he => .unary he

theorem operands_viable {l : Level} {ls : List Level} {y : ParserM Expr}
    (hy : ViableExpr (.level ls) y) (chain : l.chain = true) (line : Int) (k : Nat)
    {w : List Token} {left : Expr} (hl : Spans (.level (l :: ls)) w left) (t : Token) :
    Viable (fun u => Spans (.level (l :: ls)) (w ++ u)) t (operands l y line k left) := by
  have alone : Spans (.level (l :: ls)) (w ++ []) left := by rwa [List.append_nil]
  induction k generalizing w left t with
  | zero => exact .stuck (.of_nil alone)
  | succ k ih =>
    refine .look ?_
    split
    · rename_i op hop
      refine .move (passes_of_op? hop) fun u => (hy u).bind fun v right hr u => ?_
      obtain ⟨e, he, -⟩ := hl
      obtain ⟨d, hd, -⟩ := hr
      obtain ⟨f, w, rfl⟩ := List.exists_cons_of_ne_nil he.ne_nil
      have both : Spans (.level (l :: ls)) (f :: w ++ t :: v) (.binary line op left right) :=
        ⟨_, .binary (by rwa [if_pos chain]) hop hd, nofun⟩
      exact (ih both u (by simpa using both)).imp fun u e h => by simpa using h
    · exact .done alone

theorem binary_viable {l : Level} {ls : List Level} {y : ParserM Expr}
    (hy : ViableExpr (.level ls) y) : ViableExpr (.level (l :: ls)) (binary l n y) := by
  refine fun t => .look ((hy t).bind fun w left hl u => ?_)
  by_cases chain : l.chain = true
  · rw [if_pos chain]
    exact operands_viable hy chain _ _ (hl.imp fun _ => .operand) u
  rw [if_neg chain]
  refine .look ?_
  split
  · rename_i op hop
    refine .move (passes_of_op? hop) fun u => (hy u).bind fun v right hr _ => .done ?_
    obtain ⟨e, he, -⟩ := hl
    obtain ⟨d, hd, -⟩ := hr
    obtain ⟨f, w, rfl⟩ := List.exists_cons_of_ne_nil he.ne_nil
    exact ⟨_, by simpa using IsExpr.binary (by rwa [if_neg chain]) hop hd, nofun⟩
  · exact .done (hl.imp fun e he => by simpa using IsExpr.operand he)

theorem cascade_viable (hx : ViableExpr .expression x) (ls : List Level) :
    ViableExpr (.level ls) (cascade n x ls) := by
  induction ls with
  | nil => exact unary_viable hx
  | cons l ls ih => exact binary_viable ih

/-- What is assigned to begins with the first token of the expression, which tells whether it is in
parentheses. -/
theorem assignment_viable (hx : ViableExpr .expression x) :
    ViableExpr .expression (assignment n x) := by
  have whole (w : List Token) (e : Expr) (h : Spans (.level Level.all) w e) :
      Spans .expression (w ++ []) e := h.imp fun e he => by simpa using IsExpr.plain he
  refine fun t => .look ((cascade_viable hx Level.all t).bindFirst Spans.ne_nil
    (fun w e he => .of_nil (whole w e he)) fun w e he u => ?_)
  refine .ifCheck (fun sign => ?_) fun _ => .done (whole _ e he)
  split
  · rename_i v ht
    unfold target? at ht
    split at ht
    · split at ht
      · cases ht
      · refine .move (by rw [sign]; rfl) fun u => (hx u).bind fun v' value hv _ => .done ?_
        obtain ⟨e', he', var⟩ := he
        obtain ⟨v, rfl⟩ := var _ rfl
        obtain ⟨d, hd, -⟩ := hv
        exact ⟨_, by simpa using IsExpr.assign (he'.isVariable ‹_›) sign hd, nofun⟩
    · cases ht
  · exact .fail (.of_nil (whole _ e he))

end

theorem expression_viable (n : Nat) : ViableExpr .expression (expression n) := by
  induction n with
  | zero => exact fun _ => .stuck (spans_completable _)
  | succ n ih => exact assignment_viable ih

/-! ## statements -/

/-- The rule for statements. -/
def ViableStmt (y : ParserM Stmt) : Prop :=
  ∀ t, Viable (fun w _ => ∃ s, IsStmt w s) t y

/-- Where a statement is missing, there can be a variable before a semicolon. -/
theorem stmt_completable :
    Completable (fun w (_ : Stmt) => ∃ s, IsStmt w s) := by
  obtain ⟨w, e, hw, e', he, -⟩ := spans_completable .expression
  obtain ⟨f, w, rfl⟩ := List.exists_cons_of_ne_nil he.ne_nil
  have closing : (Token.completing .semicolon).symbol ∈ Symbol.completing := by decide
  exact ⟨f :: w ++ [.completing .semicolon], .expr 0 e',
    List.forall_mem_append.2 ⟨hw, by simpa using closing⟩, _, .expr he rfl⟩

section

variable {x : ParserM Expr} {y : ParserM Stmt}

theorem optional_viable {closing : TokenKind} (hx : ViableExpr .expression x) (t : Token) :
    Viable (fun w _ => ∃ e, IsOptional w e) t (optional closing x) :=
  .ifCheck (fun _ => .done ⟨_, .absent⟩) fun _ => (hx t).bind fun w _ ⟨e, he, _⟩ _ =>
    .done ⟨some e, by simpa using IsOptional.present he⟩

theorem breakStatement_viable (word : t.kind = .breakWord) :
    Viable (fun w _ => ∃ s, IsStmt w s) t breakStatement :=
  .take (by rw [word]; rfl) fun _ => .expect rfl fun s closing _ => .done ⟨_, .break word closing⟩

theorem returnStatement_viable (hx : ViableExpr .expression x) (word : t.kind = .returnWord) :
    Viable (fun w _ => ∃ s, IsStmt w s) t (returnStatement x) :=
  .take (by rw [word]; rfl) fun u => (optional_viable hx u).bind fun _ _ ⟨_, hv⟩ _ =>
    .expect rfl fun _ closing _ => .done ⟨_, .return word hv closing⟩

theorem declaration_viable (hx : ViableExpr .expression x) (word : t.kind = .varWord) :
    Viable (fun w _ => ∃ s, IsStmt w s) t (declaration x) := by
  refine .take (by rw [word]; rfl) fun _ => .name fun m name _ => .expect rfl fun a sign u => ?_
  refine (hx u).bind fun w _ ⟨e, he, _⟩ _ => .expect rfl fun s closing _ => .done ?_
  exact ⟨_, .declare word name sign he closing⟩

theorem expressionStatement_viable (hx : ViableExpr .expression x) :
    ViableStmt (expressionStatement x) := by
  refine fun t => .look ((hx t).bind fun w _ ⟨e, he, _⟩ _ => ?_)
  refine .expect rfl fun s closing _ => .done ?_
  obtain ⟨f, w, rfl⟩ := List.exists_cons_of_ne_nil he.ne_nil
  exact ⟨_, .expr he closing⟩

/-- Statements between braces. -/
def IsBody (w : List Token) : Prop :=
  ∃ l u r ss, w = l :: u ++ [r] ∧ l.kind = .leftBrace ∧ r.kind = .rightBrace ∧ IsRow IsStmt u ss

theorem body_viable (hy : ViableStmt y) (t : Token) :
    Viable (fun w _ => IsBody w) t (body n y) :=
  .expect rfl fun l opening u => (untilBrace_viable hy n u).bind fun v _ ⟨ss, hss⟩ _ =>
    .expect rfl fun r closing _ => .done ⟨l, v, r, ss, by simp, opening, closing, hss⟩

theorem block_viable (hy : ViableStmt y) : ViableStmt (block n y) := by
  refine fun t => (body_viable hy t).bind fun w _ hw _ => .done ?_
  obtain ⟨l, _, r, _, rfl, opening, closing, items, -, hi, rfl⟩ := hw
  exact ⟨_, by simpa using IsStmt.block opening hi closing⟩

theorem ifStatement_viable (hx : ViableExpr .expression x) (hy : ViableStmt y)
    (word : t.kind = .ifWord) : Viable (fun w _ => ∃ s, IsStmt w s) t (ifStatement x y) := by
  refine .take (by rw [word]; rfl) fun _ => .expect rfl fun l opening u => ?_
  refine (hx u).bind fun w _ ⟨e, he, _⟩ _ => .expect rfl fun r closing u => ?_
  refine (hy u).bind fun v _ ⟨s, hs⟩ u => .ifTakeIf rfl (fun other u => ?_) fun _ => .done ?_
  · refine (hy u).bind fun v' _ ⟨a, ha⟩ _ => .done ?_
    exact ⟨_, by simpa using IsStmt.ifElse word opening he closing hs other ha⟩
  · exact ⟨_, by simpa using IsStmt.ifThen word opening he closing hs⟩

theorem whileStatement_viable (hx : ViableExpr .expression x) (hy : ViableStmt y)
    (word : t.kind = .whileWord) : Viable (fun w _ => ∃ s, IsStmt w s) t (whileStatement x y) := by
  refine .take (by rw [word]; rfl) fun _ => .expect rfl fun l opening u => ?_
  refine (hx u).bind fun w _ ⟨e, he, _⟩ _ => .expect rfl fun r closing u => ?_
  refine (hy u).bind fun v _ ⟨s, hs⟩ _ => .done ?_
  exact ⟨_, by simpa using IsStmt.while word opening he closing hs⟩

theorem forStatement_viable (hx : ViableExpr .expression x) (hy : ViableStmt y)
    (word : t.kind = .forWord) : Viable (fun w _ => ∃ s, IsStmt w s) t (forStatement x y) := by
  refine .take (by rw [word]; rfl) fun _ => .expect rfl fun l opening u => ?_
  refine (optional_viable hx u).bind fun w _ ⟨i, hi⟩ _ => .expect rfl fun m initEnd u => ?_
  refine (optional_viable hx u).bind fun v _ ⟨c, hc⟩ _ => .expect rfl fun k conditionEnd u => ?_
  refine (optional_viable hx u).bind fun v' _ ⟨d, hd⟩ _ => .expect rfl fun r closing u => ?_
  refine (hy u).bind fun v'' _ ⟨s, hs⟩ _ => .done ?_
  exact ⟨_, by simpa using IsStmt.for word opening hi initEnd hc conditionEnd hd closing hs⟩

end

theorem statement_viable (n : Nat) : ViableStmt (statement n) := by
  induction n with
  | zero => exact fun _ => .stuck stmt_completable
  | succ n ih =>
    have hx := expression_viable (n + 1)
    refine fun t => .look ?_
    split
    · exact ifStatement_viable hx ih ‹_›
    · exact whileStatement_viable hx ih ‹_›
    · exact forStatement_viable hx ih ‹_›
    · exact breakStatement_viable ‹_›
    · exact returnStatement_viable hx ‹_›
    · exact declaration_viable hx ‹_›
    · exact block_viable ih t
    · exact expressionStatement_viable hx t

/-! ## classes -/

theorem formal_viable (t : Token) : Viable (fun w _ => ∃ f, IsFormal w f) t formal :=
  .look (.name fun _ type _ => .name fun _ name _ => .done ⟨_, .intro type name⟩)

theorem methodRest_viable {type name l : Token} (ht : type.kind = .identifier)
    (hm : name.kind = .identifier) (opening : l.kind = .leftParen) (line : Int) (s s' : String) :
    Viable (fun w _ => ∃ m, IsMember (type :: name :: w) m) l (methodRest n line s s') := by
  refine .take (by rw [opening]; rfl) fun u => (commaList_viable formal_viable n u).bind ?_
  rintro w _ ⟨_, formals, -, hf, hs⟩ _
  have method {u : List Token} (hu : IsBody u) (r : Token) (closing : r.kind = .rightParen) :
      ∃ m, IsMember (type :: name :: l :: (w ++ r :: u)) m := by
    obtain ⟨b, _, c, _, rfl, bodyOpening, bodyClosing, items, -, hi, rfl⟩ := hu
    exact ⟨_, by simpa using IsMember.method ht hm opening hf hs closing bodyOpening hi bodyClosing⟩
  refine .expect rfl fun r closing u => .ifCheck (fun _ => ?_) fun _ => .fail ?_
  · refine (body_viable (statement_viable n) u).bind fun v _ hv _ => .done ?_
    simpa using method hv r closing
  · have braces : IsBody [.completing .leftBrace, .completing .rightBrace] :=
      ⟨_, [], _, [], rfl, rfl, rfl, .nil⟩
    exact ⟨_, .field line s s' none, by simp; decide, method braces r closing⟩

theorem member_viable (n : Nat) (t : Token) :
    Viable (fun w _ => ∃ m, IsMember w m) t (member n) := by
  refine .look (.name fun f type _ => .name fun m name u => ?_)
  refine .ifTakeIf rfl (fun sign u => ?_) fun _ => .ifTakeIf rfl (fun closing _ => ?_) fun _ => ?_
  · refine (expression_viable n u).bind fun w _ ⟨e, he, _⟩ _ => .expect rfl fun s closing _ => ?_
    exact .done ⟨_, .fieldInit type name sign he closing⟩
  · exact .done ⟨_, .field type name closing⟩
  · refine .ifCheck (fun opening => methodRest_viable type name opening _ _ _) fun _ => .fail ?_
    exact ⟨[.completing .semicolon], .field 0 "" "" none, by simp; decide, _, .field type name rfl⟩

/-- The end of a class, of which everything before the opening brace has been taken. -/
theorem classRest_viable (file : String) {word name : Token} {w : List Token}
    {parent : Option String} (hw : word.kind = .classWord) (hn : name.kind = .identifier)
    (heading : IsParent w parent) (line : Int) (s : String) (parent' : Option String) (t : Token) :
    Viable (fun u _ => ∃ c, IsClass file (word :: name :: w ++ u) c) t (do
      let membersLine := (← expect .leftBrace .classOpening).line
      let members ← untilBrace (member n) n
      let _ ← expect .rightBrace .classClosing
      return (⟨line, s, parent', membersLine, members, some (← get).file⟩ : ClassDecl)) := by
  refine .expect rfl fun l opening u => (untilBrace_viable (member_viable n) n u).bind ?_
  rintro v ms ⟨_, items, -, hi, rfl⟩ _
  refine .expect rfl fun r closing _ => .file (f := fun file =>
    pure (⟨line, s, parent', l.line, ms, some file⟩ : ClassDecl)) fun _ => .done ?_
  exact ⟨_, by simpa using IsClass.intro hw hn heading opening hi closing⟩

theorem classDeclaration_viable (file : String) (n : Nat) (t : Token) :
    Viable (fun w _ => ∃ c, IsClass file w c) t (classDeclaration n) := by
  refine .look (.expect rfl fun word hw _ => .name fun name hn u => ?_)
  refine .ifTakeIf rfl (fun extended u => ?_) fun _ => ?_
  · rw [map_eq_pure_bind, bind_assoc]
    refine .name fun parent hp u => ?_
    rw [pure_bind]
    exact classRest_viable file hw hn (.present extended hp) _ _ _ u
  · rw [pure_bind]
    exact classRest_viable file hw hn .absent _ _ _ u

theorem classes_viable (file : String) (n k : Nat) (t : Token) :
    Viable (fun w _ => ∃ cs, IsRow (IsClass file) w cs) t (classes n k) := by
  induction k generalizing t with
  | zero => exact .stuck (.of_nil (a := []) ⟨[], .nil⟩)
  | succ k ih =>
    refine .ifCheck (fun _ => .done ⟨[], .nil⟩) fun _ => ?_
    refine (classDeclaration_viable file n t).bind fun w _ ⟨c, hc⟩ u => ?_
    refine (ih u).bind fun v _ ⟨cs, hcs⟩ _ => .done ⟨c :: cs, ?_⟩
    simpa using hcs.cons hc

theorem program_viable (file : String) (line : Int) (n : Nat) (t : Token) :
    Viable (fun w _ => ∃ r, IsProgram file line w r) t (program n) := by
  refine .look ((classes_viable file n n t).bind ?_)
  rintro w _ ⟨_, items, -, hi, rfl⟩ _
  exact .done ⟨_, by simpa using IsProgram.intro hi⟩

end Grammar
end BantamSyntax
