import BantamSyntax.Proofs.Parsing.CompleteExpressions

/-!
# Completeness of the rules for programs

Statements, classes and programs that the grammar derives are read as their trees, if each `else`
belongs to the nearest `if`.
-/
namespace BantamSyntax
namespace Grammar

open BantamSyntax.Parser

variable {file : String} {t : Token} {us : List Token} {n : Nat}

/-! ## statements -/

/-- The kinds of tokens that a statement can begin with. -/
def stmtStarts : List TokenKind :=
  [.leftBrace, .varWord, .ifWord, .whileWord, .forWord, .breakWord, .returnWord] ++
    Place.expression.starts

theorem IsStmt.first {w : List Token} {s : Stmt} (h : IsStmt (t :: w) s) :
    t.kind ∈ stmtStarts := by
  cases h with
  | expr h => exact List.mem_append_right _ h.first
  | block word | declare word | ifThen word | ifElse word | «while» word | «for» word
  | «break» word | «return» word =>
    rw [word]
    decide

/-- The rule for whole statements reads the tokens as the tree, and the token after them is no
`else` that would belong to it. -/
def StmtRuns (file : String) (w : List Token) (s : Stmt) : Prop :=
  ∀ n t us, (w ++ t :: us).length ≤ n → (s.dangles = true → t.kind ≠ .elseWord) →
    Runs file (statement n) (w ++ t :: us) (some (s, t :: us))

section

variable {w u : List Token} {e : Expr} {s : Stmt}

theorem IsOptional.runs {closing : TokenKind} {o : Option Expr} (h : IsOptional w o)
    (hc : closing ∈ [TokenKind.rightParen, .semicolon]) (ht : t.kind = closing)
    (hn : (w ++ t :: us).length ≤ n) :
    Runs file (optional closing (expression n)) (w ++ t :: us) (some (o, t :: us)) := by
  subst ht
  cases h with
  | absent => exact runs_ifCheck rfl (runs_pure none)
  | present h =>
    obtain ⟨f, w, rfl⟩ := List.exists_cons_of_ne_nil h.ne_nil
    have first := h.first
    have open_ : f.kind ≠ t.kind := by
      intro hk
      rw [hk] at first
      simp only [List.mem_cons, List.not_mem_nil, or_false] at hc
      rcases hc with hc | hc <;> rw [hc] at first <;> exact absurd first (by decide)
    refine runs_ifCheck_not open_ ((h.runs hn ?_).bind (runs_pure _))
    simp only [List.mem_cons, List.not_mem_nil, or_false] at hc ⊢
    exact hc.imp_right .inr

theorem IsStmt.ends {items : List (Piece Stmt)} (h : ∀ i ∈ items, IsStmt i.tokens i.tree)
    (i : Piece Stmt) (hi : i ∈ items) :
    ∃ t w, i.tokens = t :: w ∧ t.kind ≠ .elseWord ∧ t.kind ≠ .rightBrace ∧
      t.kind ≠ .endOfFile := by
  obtain ⟨t, w, ht⟩ := List.exists_cons_of_ne_nil (h i hi).ne_nil
  have := h i hi
  rw [ht] at this
  have first := this.first
  refine ⟨t, w, ht, ?_, ?_, ?_⟩ <;> intro hk <;> rw [hk] at first <;> exact absurd first (by decide)

theorem body_runs {l r : Token} {items : List (Piece Stmt)} {steps : Nat}
    (opening : l.kind = .leftBrace) (closing : r.kind = .rightBrace)
    (h : ∀ i ∈ items, IsStmt i.tokens i.tree) (hi : ∀ i ∈ items, StmtRuns file i.tokens i.tree)
    (hs : (items.flatMap (·.tokens) ++ r :: us).length ≤ steps)
    (hn : (items.flatMap (·.tokens) ++ r :: us).length ≤ n) :
    Runs file (body steps (statement n)) (l :: items.flatMap (·.tokens) ++ r :: us)
      (some ((l.line, items.map (·.tree)), us)) := by
  apply (runs_expect opening rfl).bind
  refine Runs.bind (untilBrace_runs (F := (·.kind ≠ .elseWord)) closing (by simp [closing])
    (fun i hm t us hn ht => hi i hm n t us hn fun _ => ht) (IsStmt.ends h) steps hs hn) ?_
  exact (runs_expect closing rfl).bind (runs_pure _)

/-- A condition in its parentheses is read, and what comes after it is left to the rule. -/
theorem condition_runs {β : Type} {l r : Token} {f : Expr → ParserM β}
    {o : Option (β × List Token)} {before after : Expected} (opening : l.kind = .leftParen)
    (condition : IsExpr .expression w e) (closing : r.kind = .rightParen)
    (hn : (l :: w ++ r :: us).length ≤ n + 1) (hf : Runs file (f e) us o) :
    Runs file (do
      let _ ← expect .leftParen before
      let c ← expression n
      let _ ← expect .rightParen after
      f c) (l :: w ++ r :: us) o := by
  simp only [List.cons_append, List.length_cons] at hn
  apply (runs_expect opening rfl).bind
  apply (condition.runs (by omega) (by simp [closing])).bind
  exact (runs_expect closing rfl).bind hf

theorem StmtRuns.ifThen {l r : Token} (word : t.kind = .ifWord) (opening : l.kind = .leftParen)
    (condition : IsExpr .expression w e) (closing : r.kind = .rightParen)
    (h : StmtRuns file u s) : StmtRuns file (t :: l :: w ++ r :: u) (.ifThen t.line e s) := by
  intro n c us hn hd
  cases n with
  | zero => simp at hn
  | succ n =>
    simp only [List.append_assoc, List.cons_append, List.length_append, List.length_cons] at hn ⊢
    apply runs_token.bind
    rw [word]
    refine (runs_take (by rw [word]; rfl)).bind (condition_runs opening condition closing ?_ ?_)
    · simp only [List.cons_append, List.length_append, List.length_cons]
      omega
    · refine Runs.bind (h n c us ?_ fun _ => hd rfl) (runs_ifTakeIf_not (hd rfl) (runs_pure _))
      simp only [List.length_append, List.length_cons]
      omega

theorem StmtRuns.ifElse {l r o : Token} {v : List Token} {a : Stmt} (word : t.kind = .ifWord)
    (opening : l.kind = .leftParen) (condition : IsExpr .expression w e)
    (closing : r.kind = .rightParen) (h : StmtRuns file u s) (closed : s.dangles = false)
    (other : o.kind = .elseWord) (ha : StmtRuns file v a) :
    StmtRuns file (t :: l :: w ++ r :: u ++ o :: v) (.ifElse t.line e s a) := by
  intro n c us hn hd
  cases n with
  | zero => simp at hn
  | succ n =>
    simp only [List.append_assoc, List.cons_append, List.length_append, List.length_cons] at hn ⊢
    apply runs_token.bind
    rw [word]
    refine (runs_take (by rw [word]; rfl)).bind (condition_runs opening condition closing ?_ ?_)
    · simp only [List.cons_append, List.length_append, List.length_cons]
      omega
    refine Runs.bind (h n o _ ?_ fun hs => absurd (closed.symm.trans hs) (by simp)) ?_
    · simp only [List.length_append, List.length_cons]
      omega
    refine runs_ifTakeIf other rfl (Runs.bind (ha n c us ?_ hd) (runs_pure _))
    simp only [List.length_append, List.length_cons]
    omega

theorem StmtRuns.while {l r : Token} (word : t.kind = .whileWord) (opening : l.kind = .leftParen)
    (condition : IsExpr .expression w e) (closing : r.kind = .rightParen)
    (h : StmtRuns file u s) : StmtRuns file (t :: l :: w ++ r :: u) (.while t.line e s) := by
  intro n c us hn hd
  cases n with
  | zero => simp at hn
  | succ n =>
    simp only [List.append_assoc, List.cons_append, List.length_append, List.length_cons] at hn ⊢
    apply runs_token.bind
    rw [word]
    refine (runs_take (by rw [word]; rfl)).bind (condition_runs opening condition closing ?_ ?_)
    · simp only [List.cons_append, List.length_append, List.length_cons]
      omega
    · refine Runs.bind (h n c us ?_ hd) (runs_pure _)
      simp only [List.length_append, List.length_cons]
      omega

theorem StmtRuns.for {l m k r : Token} {x y : List Token} {init condition update : Option Expr}
    (word : t.kind = .forWord) (opening : l.kind = .leftParen) (first : IsOptional w init)
    (initEnd : m.kind = .semicolon) (second : IsOptional x condition)
    (conditionEnd : k.kind = .semicolon) (third : IsOptional y update)
    (closing : r.kind = .rightParen) (h : StmtRuns file u s) :
    StmtRuns file (t :: l :: w ++ m :: x ++ k :: y ++ r :: u)
      (.for t.line init condition update s) := by
  intro n c us hn hd
  cases n with
  | zero => simp at hn
  | succ n =>
    simp only [List.append_assoc, List.cons_append, List.length_append, List.length_cons] at hn ⊢
    apply runs_token.bind
    rw [word]
    refine (runs_take (by rw [word]; rfl)).bind ((runs_expect opening rfl).bind ?_)
    refine Runs.bind (first.runs (by simp) initEnd ?_) ((runs_expect initEnd rfl).bind ?_)
    · simp only [List.length_append, List.length_cons]
      omega
    refine Runs.bind (second.runs (by simp) conditionEnd ?_)
      ((runs_expect conditionEnd rfl).bind ?_)
    · simp only [List.length_append, List.length_cons]
      omega
    refine Runs.bind (third.runs (by simp) closing ?_) ((runs_expect closing rfl).bind ?_)
    · simp only [List.length_append, List.length_cons]
      omega
    refine Runs.bind (h n c us ?_ hd) (runs_pure _)
    simp only [List.length_append, List.length_cons]
    omega

theorem StmtRuns.block {l r : Token} {items : List (Piece Stmt)} (opening : l.kind = .leftBrace)
    (body : ∀ i ∈ items, IsStmt i.tokens i.tree) (closing : r.kind = .rightBrace)
    (hi : ∀ i ∈ items, StmtRuns file i.tokens i.tree) :
    StmtRuns file (l :: items.flatMap (·.tokens) ++ [r])
      (.block l.line l.line (items.map (·.tree))) := by
  intro n c us hn _
  cases n with
  | zero => simp at hn
  | succ n =>
    simp only [List.append_assoc, List.cons_append, List.nil_append, List.length_cons] at hn ⊢
    apply runs_token.bind
    rw [opening]
    exact (body_runs opening closing body hi (by omega) (by omega)).bind (runs_pure _)

theorem StmtRuns.declare {m a c : Token} (word : t.kind = .varWord) (name : m.kind = .identifier)
    (sign : a.kind = .assign) (init : IsExpr .expression w e) (closing : c.kind = .semicolon) :
    StmtRuns file (t :: m :: a :: w ++ [c]) (.declare t.line m.spelling e) := by
  intro n d us hn _
  cases n with
  | zero => simp at hn
  | succ n =>
    simp only [List.append_assoc, List.cons_append, List.nil_append, List.length_cons] at hn ⊢
    apply runs_token.bind
    rw [word]
    refine (runs_take (by rw [word]; rfl)).bind ((runs_name name).bind ?_)
    refine (runs_expect sign rfl).bind ((init.runs (by omega) (by simp [closing])).bind ?_)
    exact (runs_expect closing rfl).bind (runs_pure _)

theorem StmtRuns.expr {c : Token} (h : IsExpr .expression (t :: w) e)
    (closing : c.kind = .semicolon) : StmtRuns file (t :: w ++ [c]) (.expr t.line e) := by
  intro n d us hn _
  cases n with
  | zero => simp at hn
  | succ n =>
    simp only [List.append_assoc, List.cons_append, List.nil_append] at hn ⊢
    have first := h.first
    apply runs_token.bind
    split
    case h_8 =>
      refine runs_token.bind ((h.runs hn (by simp [closing])).bind ?_)
      exact (runs_expect closing rfl).bind (runs_pure _)
    all_goals
      rename_i hk
      rw [hk] at first
      exact absurd first (by decide)

theorem StmtRuns.break {c : Token} (word : t.kind = .breakWord) (closing : c.kind = .semicolon) :
    StmtRuns file [t, c] (.break t.line) := by
  intro n d us hn _
  cases n with
  | zero => simp at hn
  | succ n =>
    apply runs_token.bind
    rw [word]
    apply (runs_take (by rw [word]; rfl)).bind
    exact (runs_expect closing rfl).bind (runs_pure _)

theorem StmtRuns.return {c : Token} {o : Option Expr} (word : t.kind = .returnWord)
    (result : IsOptional w o) (closing : c.kind = .semicolon) :
    StmtRuns file (t :: w ++ [c]) (.return t.line o) := by
  intro n d us hn _
  cases n with
  | zero => simp at hn
  | succ n =>
    simp only [List.append_assoc, List.cons_append, List.nil_append, List.length_cons] at hn ⊢
    apply runs_token.bind
    rw [word]
    apply (runs_take (by rw [word]; rfl)).bind
    apply (result.runs (by simp) closing (by omega)).bind
    exact (runs_expect closing rfl).bind (runs_pure _)

theorem IsStmt.runs (h : IsStmt w s) (settled : s.settled = true) : StmtRuns file w s := by
  induction h with
  | block opening body closing ih =>
    rw [Stmt.settled, Stmt.allSettled_iff, List.forall_mem_map] at settled
    exact .block opening body closing fun i hi => ih i hi (settled i hi)
  | declare word name sign init closing => exact .declare word name sign init closing
  | expr h closing => exact .expr h closing
  | ifThen word opening condition closing _ ih =>
    exact .ifThen word opening condition closing (ih settled)
  | ifElse word opening condition closing _ other _ ih iha =>
    simp only [Stmt.settled, Bool.and_eq_true, Bool.not_eq_true'] at settled
    obtain ⟨⟨closed, hs⟩, ha⟩ := settled
    exact .ifElse word opening condition closing (ih hs) closed other (iha ha)
  | «while» word opening condition closing _ ih =>
    exact .while word opening condition closing (ih settled)
  | «for» word opening first initEnd second conditionEnd third closing _ ih =>
    exact .for word opening first initEnd second conditionEnd third closing (ih settled)
  | «break» word closing => exact .break word closing
  | «return» word result closing => exact .return word result closing

end

/-! ## classes -/

theorem IsFormal.runs {w : List Token} {f : Formal} (h : IsFormal w f) :
    Runs file formal (w ++ us) (some (f, us)) := by
  cases h with
  | intro type name =>
    exact runs_token.bind ((runs_name type).bind ((runs_name name).bind (runs_pure _)))

theorem IsFormal.first {w : List Token} {f : Formal} (h : IsFormal w f) :
    ∃ t u, w = t :: u ∧ t.kind = .identifier := by
  cases h with
  | intro type => exact ⟨_, _, rfl, type⟩

theorem parameters_runs {w : List Token} {r : Token} {formals : List (Piece Formal)}
    (h : ∀ i ∈ formals, IsFormal i.tokens i.tree) (commas : Separated (formals.map (·.tokens)) w)
    (closing : r.kind = .rightParen) (hn : (w ++ r :: us).length ≤ n) :
    Runs file (parameters n) (w ++ r :: us) (some (formals.map (·.tree), r :: us)) := by
  refine commaList_runs (n := n) closing (fun i hi t us _ _ => (h i hi).runs) (fun i hi => ?_)
    commas hn hn
  obtain ⟨t, v, ht, type⟩ := (h i hi).first
  exact ⟨t, v, ht, by simp [type]⟩

theorem IsMember.runs {w : List Token} {m : Member} (h : IsMember w m)
    (settled : m.settled = true) (hn : (w ++ us).length ≤ n) :
    Runs file (member n) (w ++ us) (some (m, us)) := by
  cases h with
  | field type name closing =>
    refine runs_token.bind ((runs_name type).bind ((runs_name name).bind ?_))
    exact runs_ifTakeIf_not (by simp [closing]) (runs_ifTakeIf closing rfl (runs_pure _))
  | fieldInit type name sign init closing =>
    simp only [List.append_assoc, List.cons_append, List.nil_append, List.length_cons] at hn ⊢
    refine runs_token.bind ((runs_name type).bind ((runs_name name).bind ?_))
    refine runs_ifTakeIf sign rfl ((init.runs (by omega) (by simp [closing])).bind ?_)
    exact (runs_expect closing rfl).bind (runs_pure _)
  | method type name opening parameters commas closing bodyOpening body bodyClosing =>
    rw [Member.settled, Stmt.allSettled_iff, List.forall_mem_map] at settled
    simp only [List.append_assoc, List.cons_append, List.nil_append, List.length_append,
      List.length_cons] at hn ⊢
    refine runs_token.bind ((runs_name type).bind ((runs_name name).bind ?_))
    refine runs_ifTakeIf_not (by simp [opening]) (runs_ifTakeIf_not (by simp [opening]) ?_)
    refine runs_ifCheck opening ((runs_take (by rw [opening]; rfl)).bind ?_)
    refine Runs.bind (parameters_runs parameters commas closing ?_)
      ((runs_expect closing rfl).bind (runs_ifCheck bodyOpening ?_))
    · simp only [List.length_append, List.length_cons]
      omega
    · refine Runs.bind (body_runs bodyOpening bodyClosing body
        (fun i hi => (body i hi).runs (settled i hi)) ?_ ?_) (runs_pure _) <;>
        simp only [List.length_append, List.length_cons] <;> omega

theorem IsMember.first {w : List Token} {m : Member} (h : IsMember w m) :
    ∃ t u, w = t :: u ∧ t.kind = .identifier := by
  cases h with
  | field type | fieldInit type | method type => exact ⟨_, _, rfl, type⟩

theorem IsParent.runs {α : Type} {w : List Token} {parent : Option String} (h : IsParent w parent)
    {f : Option String → ParserM α} {l : Token} (opening : l.kind = .leftBrace)
    {o : Option (α × List Token)} (hf : Runs file (f parent) (l :: us) o) :
    Runs file (takeIf .extendsWord >>= fun b =>
      if b = true then some <$> name .parentName >>= f else pure none >>= f) (w ++ l :: us) o := by
  cases h with
  | absent => exact runs_ifTakeIf_not (by simp [opening]) ((runs_pure none).bind hf)
  | @present e m word type =>
    exact runs_ifTakeIf word rfl (((runs_name type).bind (runs_pure (some m.spelling))).bind hf)

theorem IsClass.runs {w : List Token} {c : ClassDecl} (h : IsClass file w c)
    (settled : c.members.all Member.settled = true) (hn : (w ++ us).length ≤ n) :
    Runs file (classDeclaration n) (w ++ us) (some (c, us)) := by
  cases h with
  | @intro t m l r w parent items word name heading opening members closing =>
    rw [List.all_eq_true, List.forall_mem_map] at settled
    simp only [List.append_assoc, List.cons_append, List.nil_append, List.length_append,
      List.length_cons] at hn ⊢
    refine runs_token.bind ((runs_expect word rfl).bind ((runs_name name).bind ?_))
    refine heading.runs opening ((runs_expect opening rfl).bind ?_)
    refine Runs.bind (untilBrace_runs (n := n) (F := fun _ => True) closing trivial
      (fun i hi t us hn _ => (members i hi).runs (settled i hi) hn) (fun i hi => ?_) n ?_ ?_)
      ((runs_expect closing rfl).bind fun p hp => ⟨p, by rw [← hp.name_eq]; rfl, hp⟩)
    · obtain ⟨t, u, ht, type⟩ := (members i hi).first
      exact ⟨t, u, ht, trivial, by simp [type], by simp [type]⟩
    · simp only [List.length_append, List.length_cons]
      omega
    · simp only [List.length_append, List.length_cons]
      omega

theorem IsClass.first {w : List Token} {c : ClassDecl} (h : IsClass file w c) :
    ∃ t u, w = t :: u ∧ t.kind = .classWord := by
  cases h with
  | intro word => exact ⟨_, _, rfl, word⟩

theorem classes_runs {items : List (Piece ClassDecl)} (last : t.kind = .endOfFile)
    (h : ∀ i ∈ items, IsClass file i.tokens i.tree)
    (settled : ∀ i ∈ items, i.tree.members.all Member.settled = true) (k : Nat)
    (hk : (items.flatMap (·.tokens) ++ t :: us).length ≤ k)
    (hn : (items.flatMap (·.tokens) ++ t :: us).length ≤ n) :
    Runs file (classes n k) (items.flatMap (·.tokens) ++ t :: us)
      (some (items.map (·.tree), t :: us)) := by
  induction items generalizing k with
  | nil =>
    cases k with
    | zero => simp at hk
    | succ k => exact runs_ifCheck last (runs_pure [])
  | cons i items ih =>
    cases k with
    | zero => simp at hk
    | succ k =>
      have run (hn : (i.tokens ++ (items.flatMap (·.tokens) ++ t :: us)).length ≤ n) :=
        (h i (by simp)).runs (settled i (by simp)) hn
      obtain ⟨c, w, hc, word⟩ := (h i (by simp)).first
      rw [List.flatMap_cons, List.append_assoc] at hk hn ⊢
      rw [hc] at hk hn run ⊢
      refine runs_ifCheck_not (by simp [word]) ((run hn).bind ?_)
      simp only [List.length_append, List.length_cons] at hk hn
      refine Runs.bind (ih (fun j hj => h j (by simp [hj])) (fun j hj => settled j (by simp [hj])) k
        ?_ ?_) (runs_pure _) <;> simp only [List.length_append, List.length_cons] <;> omega

theorem IsProgram.runs {w : List Token} {p : Program} {line : Int}
    (h : IsProgram file line w p) (settled : p.settled = true) (last : t.kind = .endOfFile)
    (hn : (w ++ t :: us).length ≤ n) (hline : ((w ++ t :: us).head?.map Token.line) = some line) :
    Runs file (program n) (w ++ t :: us) (some (p, t :: us)) := by
  cases h with
  | @intro items h =>
    have run := classes_runs last h
      (by simpa [Program.settled, List.all_eq_true] using settled) n hn hn
    obtain ⟨f, v, hf⟩ := List.exists_cons_of_ne_nil
      (show items.flatMap (·.tokens) ++ t :: us ≠ [] by simp)
    rw [hf] at hline run ⊢
    cases hline
    exact runs_token.bind (run.bind (runs_pure _))

end Grammar
end BantamSyntax
