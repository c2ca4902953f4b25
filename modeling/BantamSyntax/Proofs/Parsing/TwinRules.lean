import BantamSyntax.Grammar.Program
import BantamSyntax.Proofs.Parsing.Twins

/-!
# Twin rules

Every rule of the grammar is its own twin, with as many steps or more.
-/
namespace BantamSyntax
namespace Grammar

open BantamSyntax.Parser

variable {lines : Int → Int → Prop} {may : TokenKind → Bool} {o o' : Option Token} {t u : Token}
  {n n' : Nat}

/-! ## expressions -/

section

variable {x x' : ParserM Expr}

theorem arguments_twins (broad : Broad may) (hx : Twins lines may (Expr.Alike lines) x x')
    (hn : n ≤ n') :
    Twins lines may (List.Forall₂ (Expr.Alike lines)) (arguments n x) (arguments n' x') :=
  .commaList (broad _ rfl) hx hn

theorem callRest_twins (broad : Broad may) (hx : Twins lines may (Expr.Alike lines) x x')
    (hn : n ≤ n') {line line' : Int} (hl : lines line line') {r r' : Option Variable}
    (hr : Option.Rel (Variable.Alike lines) r r') (name : String) :
    Twins lines may (Expr.Alike lines) (callRest n x line r name)
      (callRest n' x' line' r' name) := by
  refine .ifCheck (fun t u alike opening => ?_) ?_
  · refine .take (.some alike) (broad t.kind (by rw [opening]; rfl)) fun t u alike => ?_
    refine (arguments_twins broad hx hn).bind fun es es' he => ?_
    exact (Twins.expect (broad _ rfl)).bind fun _ _ _ => .pure (.call hl hr alike.line he)
  · cases hr with
    | none => exact .pure (.var (.plain hl))
    | some hr => exact .pure (.var (.qualified hl hr))

theorem variableOrCall_twins (broad : Broad may) (hx : Twins lines may (Expr.Alike lines) x x')
    (hn : n ≤ n') (rel : Option.Rel (Token.Alike lines) o o')
    (leaves : o.all (fun t => may t.kind) = true) :
    Twin lines may (Expr.Alike lines) o o' (variableOrCall n x)
      (variableOrCall n' x') := by
  refine .take rel leaves fun t u alike => ?_
  have plain := callRest_twins broad hx hn alike.line .none t.spelling
  rw [← alike.spelling]
  by_cases known : t.spelling ∈ receivers
  · rw [if_pos known, if_pos known]
    refine .ifTakeIf (broad _ rfl) ((Twins.name (broad _ rfl)).bind ?_) plain
    rintro name _ rfl
    exact callRest_twins broad hx hn alike.line (.some (.plain alike.line)) name
  · rw [if_neg known, if_neg known]
    exact plain

theorem primary_twins (broad : Broad may) (hx : Twins lines may (Expr.Alike lines) x x')
    (hn : n ≤ n') : Twins lines may (Expr.Alike lines) (primary n x) (primary n' x') := by
  refine .look fun t u alike => ?_
  rw [← alike.kind, ← alike.spelling]
  by_cases opening : t.kind = .leftParen
  · rw [if_pos opening, if_pos opening]
    refine .advance (broad t.kind (by rw [opening]; rfl)) (hx.bind fun e e' he => ?_)
    exact (Twins.expect (broad _ rfl)).bind fun _ _ _ => .pure he
  rw [if_neg opening, if_neg opening]
  cases h : constantKind? t.kind with
  | some kind =>
    exact .advance (broad t.kind (passes_of_constantKind? h)) (.pure (.constant alike.line))
  | none =>
    by_cases name : t.kind = .identifier
    · simp only [if_pos name]
      exact variableOrCall_twins broad hx hn (.some alike) (broad t.kind (by rw [name]; rfl))
    · simp only [if_neg name]
      exact .fail

theorem suffixed_twins (broad : Broad may) (hx : Twins lines may (Expr.Alike lines) x x')
    (hn : n ≤ n') : Twins lines may (Expr.Alike lines) (suffixed n x) (suffixed n' x') := by
  refine .look fun t u first => ((primary_twins broad hx hn).bind fun e e' he => ?_).at first
  refine .look fun t u alike => ?_
  rw [← alike.kind]
  cases h : suffixOp? t.kind with
  | some op => exact .advance (broad t.kind (passes_of_suffixOp? h)) (.pure (.unary first.line he))
  | none => exact .done he

theorem signOp?_alike (alike : t.Alike lines u) : signOp? u = signOp? t := by
  rw [signOp?, ← alike.kind, ← alike.spelling, signOp?]

theorem signed_twins (broad : Broad may) (hx : Twins lines may (Expr.Alike lines) x x')
    (hn : n ≤ n') {k k' : Nat} (hk : k ≤ k') :
    Twins lines may (Expr.Alike lines) (signed n x k) (signed n' x' k') := by
  induction k generalizing k' with
  | zero => exact .stuck
  | succ k ih =>
    cases k' with
    | zero => cases hk
    | succ k' =>
      refine .look fun t u alike => ?_
      rw [signOp?_alike alike]
      cases h : signOp? t with
      | some op =>
        refine .advance (broad t.kind (passes_of_signOp? h)) ?_
        exact (ih (Nat.le_of_succ_le_succ hk)).bind fun _ _ he => .pure (.unary alike.line he)
      | none => exact (suffixed_twins broad hx hn).at alike

theorem newExpression_twins (broad : Broad may) (rel : Option.Rel (Token.Alike lines) o o')
    (leaves : o.all (fun t => may t.kind) = true) :
    Twin lines may (Expr.Alike lines) o o' newExpression newExpression := by
  refine .take rel leaves fun t u alike => ((Twins.name (broad _ rfl)).bind ?_)
  rintro type _ rfl
  refine (Twins.expect (broad _ rfl)).bind fun _ _ _ => ?_
  exact (Twins.expect (broad _ rfl)).bind fun _ _ _ => .pure (.new alike.line)

theorem castExpression_twins (broad : Broad may) (hx : Twins lines may (Expr.Alike lines) x x')
    (rel : Option.Rel (Token.Alike lines) o o')
    (leaves : o.all (fun t => may t.kind) = true) :
    Twin lines may (Expr.Alike lines) o o' (castExpression x)
      (castExpression x') := by
  refine .take rel leaves fun t u alike => ((Twins.expect (broad _ rfl)).bind fun _ _ _ => ?_)
  refine (Twins.name (broad _ rfl)).bind ?_
  rintro type _ rfl
  refine (Twins.expect (broad _ rfl)).bind fun _ _ _ => hx.bind fun e e' he => ?_
  exact (Twins.expect (broad _ rfl)).bind fun _ _ _ => .pure (.cast alike.line he)

theorem unary_twins (broad : Broad may) (hx : Twins lines may (Expr.Alike lines) x x')
    (hn : n ≤ n') : Twins lines may (Expr.Alike lines) (unary n x) (unary n' x') := by
  refine .ifCheck (fun t u alike word => ?_) (.ifCheck (fun t u alike word => ?_) ?_)
  · exact newExpression_twins broad (.some alike) (broad t.kind (by rw [word]; rfl))
  · exact castExpression_twins broad hx (.some alike) (broad t.kind (by rw [word]; rfl))
  · exact signed_twins broad hx hn hn

theorem op?_alike {l : Level} (alike : t.Alike lines u) : l.op? u = l.op? t := by
  rw [Level.op?, ← alike.kind, ← alike.spelling, Level.op?]

theorem operands_twins (broad : Broad may) {l : Level} {y y' : ParserM Expr}
    (hy : Twins lines may (Expr.Alike lines) y y') {line line' : Int} (hl : lines line line')
    (hn : n ≤ n') {e e' : Expr} (he : e.Alike lines e') :
    Twins lines may (Expr.Alike lines) (operands l y line n e) (operands l y' line' n' e') := by
  induction n generalizing n' e e' with
  | zero => exact .stuck
  | succ n ih =>
    cases n' with
    | zero => cases hn
    | succ n' =>
      refine .look fun t u alike => ?_
      rw [op?_alike alike]
      cases h : l.op? t with
      | some op =>
        refine .advance (broad t.kind (passes_of_op? h)) (hy.bind fun d d' hd => ?_)
        exact ih (Nat.le_of_succ_le_succ hn) (.binary hl he hd)
      | none => exact .done he

theorem binary_twins (broad : Broad may) {l : Level} {y y' : ParserM Expr}
    (hy : Twins lines may (Expr.Alike lines) y y') (hn : n ≤ n') :
    Twins lines may (Expr.Alike lines) (binary l n y) (binary l n' y') := by
  refine .look fun t u first => (hy.bind fun e e' he => ?_).at first
  by_cases chain : l.chain = true
  · rw [if_pos chain, if_pos chain]
    exact operands_twins broad hy first.line hn he
  rw [if_neg chain, if_neg chain]
  refine .look fun t u alike => ?_
  rw [op?_alike alike]
  cases h : l.op? t with
  | some op =>
    refine .advance (broad t.kind (passes_of_op? h)) (hy.bind fun d d' hd => ?_)
    exact .pure (.binary first.line he hd)
  | none => exact .done he

theorem cascade_twins (broad : Broad may) (hx : Twins lines may (Expr.Alike lines) x x')
    (hn : n ≤ n') (ls : List Level) :
    Twins lines may (Expr.Alike lines) (cascade n x ls) (cascade n' x' ls) := by
  induction ls with
  | nil => exact unary_twins broad hx hn
  | cons l ls ih => exact binary_twins broad ih hn

theorem target?_alike (alike : t.Alike lines u) {e e' : Expr} (he : e.Alike lines e') :
    Option.Rel (Variable.Alike lines) (target? t e) (target? u e') := by
  cases he with
  | var h =>
    rw [target?, target?, ← alike.kind]
    split
    · exact .none
    · exact .some h
  | _ => exact .none

theorem assigned_alike {v v' : Variable} (h : v.Alike lines v') :
    v.receiver?.map Variable.name = v'.receiver?.map Variable.name ∧ v.name = v'.name := by
  cases h with
  | plain => exact ⟨rfl, rfl⟩
  | qualified _ receiver => cases receiver <;> exact ⟨rfl, rfl⟩

theorem assignment_twins (broad : Broad may) (hx : Twins lines may (Expr.Alike lines) x x')
    (hn : n ≤ n') : Twins lines may (Expr.Alike lines) (assignment n x) (assignment n' x') := by
  refine .look fun t u first => ((cascade_twins broad hx hn _).bind fun e e' he => ?_).at first
  refine .ifCheck (fun o o' _ sign => ?_) (.pure he)
  have target := target?_alike first he
  revert target
  cases target? t e <;> cases target? u e' <;> intro target <;> cases target
  · exact .fail
  · rename_i v v' h
    obtain ⟨receiver, name⟩ := assigned_alike h
    refine .advance (broad o.kind (by rw [sign]; rfl)) (hx.bind fun d d' hd => .pure ?_)
    rw [receiver, name]
    exact .assign first.line hd

end

theorem expression_twins (broad : Broad may) (hn : n ≤ n') :
    Twins lines may (Expr.Alike lines) (expression n) (expression n') := by
  induction n generalizing n' with
  | zero => exact .stuck
  | succ n ih =>
    cases n' with
    | zero => cases hn
    | succ n' => exact assignment_twins broad (ih (Nat.le_of_succ_le_succ hn)) hn

/-! ## statements -/

section

variable {x x' : ParserM Expr} {y y' : ParserM Stmt}

theorem optional_twins {closing : TokenKind} (hx : Twins lines may (Expr.Alike lines) x x') :
    Twins lines may (Option.Rel (Expr.Alike lines)) (optional closing x) (optional closing x') :=
  .ifCheck (fun _ _ _ _ => .done .none) (hx.bind fun _ _ he => .pure (.some he))

theorem breakStatement_twins (broad : Broad may) (rel : Option.Rel (Token.Alike lines) o o')
    (leaves : o.all (fun t => may t.kind) = true) :
    Twin lines may (Stmt.Alike lines) o o' breakStatement breakStatement :=
  .take rel leaves fun _ _ alike => (Twins.expect (broad _ rfl)).bind fun _ _ _ =>
    .pure (.break alike.line)

theorem returnStatement_twins (broad : Broad may) (hx : Twins lines may (Expr.Alike lines) x x')
    (rel : Option.Rel (Token.Alike lines) o o')
    (leaves : o.all (fun t => may t.kind) = true) :
    Twin lines may (Stmt.Alike lines) o o' (returnStatement x)
      (returnStatement x') := by
  refine .take rel leaves fun t u alike => ((optional_twins hx).bind fun value value' hv => ?_)
  exact (Twins.expect (broad _ rfl)).bind fun _ _ _ => .pure (.return alike.line hv)

theorem declaration_twins (broad : Broad may) (hx : Twins lines may (Expr.Alike lines) x x')
    (rel : Option.Rel (Token.Alike lines) o o')
    (leaves : o.all (fun t => may t.kind) = true) :
    Twin lines may (Stmt.Alike lines) o o' (declaration x) (declaration x') := by
  refine .take rel leaves fun t u alike => ((Twins.name (broad _ rfl)).bind ?_)
  rintro name _ rfl
  refine (Twins.expect (broad _ rfl)).bind fun _ _ _ => hx.bind fun e e' he => ?_
  exact (Twins.expect (broad _ rfl)).bind fun _ _ _ => .pure (.declare alike.line he)

theorem expressionStatement_twins (broad : Broad may)
    (hx : Twins lines may (Expr.Alike lines) x x') :
    Twins lines may (Stmt.Alike lines) (expressionStatement x) (expressionStatement x') := by
  refine .look fun t u alike => (hx.bind fun e e' he => ?_).at alike
  exact (Twins.expect (broad _ rfl)).bind fun _ _ _ => .pure (.expr alike.line he)

theorem body_twins (broad : Broad may) (hy : Twins lines may (Stmt.Alike lines) y y')
    (hn : n ≤ n') :
    Twins lines may (fun b b' => lines b.1 b'.1 ∧ List.Forall₂ (Stmt.Alike lines) b.2 b'.2)
      (body n y) (body n' y') := by
  refine (Twins.expect (broad _ rfl)).bind fun l l' alike => ?_
  refine (Twins.untilBrace hy hn).bind fun ss ss' hs => ?_
  exact (Twins.expect (broad _ rfl)).bind fun _ _ _ => .pure ⟨alike.line, hs⟩

theorem block_twins (broad : Broad may) (hy : Twins lines may (Stmt.Alike lines) y y')
    (hn : n ≤ n') : Twins lines may (Stmt.Alike lines) (block n y) (block n' y') :=
  (body_twins broad hy hn).bind fun _ _ h => .pure (.block h.1 h.1 h.2)

theorem ifStatement_twins (broad : Broad may) (hx : Twins lines may (Expr.Alike lines) x x')
    (hy : Twins lines may (Stmt.Alike lines) y y') (rel : Option.Rel (Token.Alike lines) o o')
    (leaves : o.all (fun t => may t.kind) = true) :
    Twin lines may (Stmt.Alike lines) o o' (ifStatement x y)
      (ifStatement x' y') := by
  refine .take rel leaves fun t u alike => ((Twins.expect (broad _ rfl)).bind fun _ _ _ => ?_)
  refine hx.bind fun e e' he => (Twins.expect (broad _ rfl)).bind fun _ _ _ => ?_
  refine hy.bind fun s s' hs => Twins.ifTakeIf (broad _ rfl) ?_ (.pure (.ifThen alike.line he hs))
  exact hy.bind fun a a' ha => .pure (.ifElse alike.line he hs ha)

theorem whileStatement_twins (broad : Broad may) (hx : Twins lines may (Expr.Alike lines) x x')
    (hy : Twins lines may (Stmt.Alike lines) y y') (rel : Option.Rel (Token.Alike lines) o o')
    (leaves : o.all (fun t => may t.kind) = true) :
    Twin lines may (Stmt.Alike lines) o o' (whileStatement x y)
      (whileStatement x' y') := by
  refine .take rel leaves fun t u alike => ((Twins.expect (broad _ rfl)).bind fun _ _ _ => ?_)
  refine hx.bind fun e e' he => (Twins.expect (broad _ rfl)).bind fun _ _ _ => ?_
  exact hy.bind fun s s' hs => .pure (.while alike.line he hs)

theorem forStatement_twins (broad : Broad may) (hx : Twins lines may (Expr.Alike lines) x x')
    (hy : Twins lines may (Stmt.Alike lines) y y') (rel : Option.Rel (Token.Alike lines) o o')
    (leaves : o.all (fun t => may t.kind) = true) :
    Twin lines may (Stmt.Alike lines) o o' (forStatement x y)
      (forStatement x' y') := by
  refine .take rel leaves fun t u alike => ((Twins.expect (broad _ rfl)).bind fun _ _ _ => ?_)
  refine (optional_twins hx).bind fun i i' hi => (Twins.expect (broad _ rfl)).bind fun _ _ _ => ?_
  refine (optional_twins hx).bind fun c c' hc => (Twins.expect (broad _ rfl)).bind fun _ _ _ => ?_
  refine (optional_twins hx).bind fun d d' hd => (Twins.expect (broad _ rfl)).bind fun _ _ _ => ?_
  exact hy.bind fun s s' hs => .pure (.for alike.line hi hc hd hs)

end

theorem statement_twins (broad : Broad may) (hn : n ≤ n') :
    Twins lines may (Stmt.Alike lines) (statement n) (statement n') := by
  induction n generalizing n' with
  | zero => exact .stuck
  | succ n ih =>
    cases n' with
    | zero => cases hn
    | succ n' =>
      have hx : Twins lines may (Expr.Alike lines) (expression (n + 1)) (expression (n' + 1)) :=
        expression_twins broad hn
      have hy := ih (Nat.le_of_succ_le_succ hn)
      refine .look fun t u alike => ?_
      rw [← alike.kind]
      split
      · exact ifStatement_twins broad hx hy (.some alike) (broad t.kind (by simp [passes, *]))
      · exact whileStatement_twins broad hx hy (.some alike) (broad t.kind (by simp [passes, *]))
      · exact forStatement_twins broad hx hy (.some alike) (broad t.kind (by simp [passes, *]))
      · exact breakStatement_twins broad (.some alike) (broad t.kind (by simp [passes, *]))
      · exact returnStatement_twins broad hx (.some alike) (broad t.kind (by simp [passes, *]))
      · exact declaration_twins broad hx (.some alike) (broad t.kind (by simp [passes, *]))
      · exact (block_twins broad hy hn).at alike
      · exact (expressionStatement_twins broad hx).at alike

/-! ## classes -/

theorem formal_twins (broad : Broad may) :
    Twins lines may (Formal.Alike lines) formal formal := by
  refine .look fun t u alike => ((Twins.name (broad _ rfl)).bind ?_).at alike
  rintro type _ rfl
  refine (Twins.name (broad _ rfl)).bind ?_
  rintro name _ rfl
  exact .pure ⟨alike.line, rfl, rfl⟩

theorem parameters_twins (broad : Broad may) (hn : n ≤ n') :
    Twins lines may (List.Forall₂ (Formal.Alike lines)) (parameters n) (parameters n') :=
  .commaList (broad _ rfl) (formal_twins broad) hn

theorem methodRest_twins (broad : Broad may) (hn : n ≤ n') {line line' : Int}
    (hl : lines line line') (type name : String) (rel : Option.Rel (Token.Alike lines) o o')
    (leaves : o.all (fun t => may t.kind) = true) :
    Twin lines may (Member.Alike lines) o o' (methodRest n line type name)
      (methodRest n' line' type name) := by
  refine .take rel leaves fun t u alike => ((parameters_twins broad hn).bind fun fs fs' hf => ?_)
  refine (Twins.expect (broad _ rfl)).bind fun _ _ _ => .ifCheck (fun _ _ opening _ => ?_) .fail
  refine ((body_twins broad (statement_twins broad hn) hn).bind fun b b' hb => ?_).at opening
  exact .pure (.method hl alike.line hf hb.1 hb.2)

theorem member_twins (broad : Broad may) (hn : n ≤ n') :
    Twins lines may (Member.Alike lines) (member n) (member n') := by
  refine .look fun t u first => ((Twins.name (broad _ rfl)).bind ?_).at first
  rintro type _ rfl
  refine (Twins.name (broad _ rfl)).bind ?_
  rintro name _ rfl
  refine Twins.ifTakeIf (broad _ rfl) ?_ (Twins.ifTakeIf (broad _ rfl) ?_ (.ifCheck ?_ .fail))
  · refine (expression_twins broad hn).bind fun e e' he => ?_
    exact (Twins.expect (broad _ rfl)).bind fun _ _ _ => .pure (.field first.line (.some he))
  · exact .pure (.field first.line .none)
  · intro t u alike opening
    have leaves : may t.kind = true := broad t.kind (by rw [opening]; rfl)
    exact methodRest_twins broad hn first.line type name (.some alike) leaves

theorem classDeclaration_twins (broad : Broad may) (hn : n ≤ n') :
    Twins lines may (ClassDecl.Alike lines) (classDeclaration n) (classDeclaration n') := by
  refine .look fun t u first => ((Twins.expect (broad _ rfl)).bind fun _ _ _ => ?_).at first
  refine (Twins.name (broad _ rfl)).bind ?_
  rintro name _ rfl
  have rest (parent : Option String) : Twins lines may (ClassDecl.Alike lines)
      (do
        let membersLine := (← expect .leftBrace .classOpening).line
        let members ← untilBrace (member n) n
        let _ ← expect .rightBrace .classClosing
        return ⟨t.line, name, parent, membersLine, members, some (← get).file⟩)
      (do
        let membersLine := (← expect .leftBrace .classOpening).line
        let members ← untilBrace (member n') n'
        let _ ← expect .rightBrace .classClosing
        return ⟨u.line, name, parent, membersLine, members, some (← get).file⟩) := by
    refine (Twins.expect (broad _ rfl)).bind fun l l' opening => ?_
    refine (Twins.untilBrace (member_twins broad hn) hn).bind fun ms ms' hms => ?_
    refine (Twins.expect (broad _ rfl)).bind fun _ _ _ o o' _ => ?_
    exact .file (f := fun file => pure (⟨t.line, name, parent, l.line, ms, some file⟩ : ClassDecl))
      (g := fun file => pure (⟨u.line, name, parent, l'.line, ms', some file⟩ : ClassDecl))
      fun _ _ => .done ⟨first.line, rfl, rfl, opening.line, hms⟩
  refine Twins.ifTakeIf (broad _ rfl) ?_ ((Twins.pure rfl).bind ?_)
  · refine Twins.bind (R := Eq) ((Twins.name (broad _ rfl)).bind fun _ _ h => .pure (h ▸ rfl)) ?_
    rintro parent _ rfl
    exact rest parent
  · rintro parent _ rfl
    exact rest parent

theorem classes_twins (broad : Broad may) (hn : n ≤ n') {k k' : Nat} (hk : k ≤ k') :
    Twins lines may (List.Forall₂ (ClassDecl.Alike lines)) (classes n k) (classes n' k') := by
  induction k generalizing k' with
  | zero => exact .stuck
  | succ k ih =>
    cases k' with
    | zero => cases hk
    | succ k' =>
      refine .ifCheck (fun _ _ _ _ => .done .nil) ?_
      refine (classDeclaration_twins broad hn).bind fun c c' hc => ?_
      exact (ih (Nat.le_of_succ_le_succ hk)).bind fun _ _ hcs => .pure (.cons hc hcs)

theorem program_twins (broad : Broad may) (hn : n ≤ n') :
    Twins lines may (Program.Alike lines) (program n) (program n') :=
  .look fun _ _ first => ((classes_twins broad hn hn).bind fun _ _ hcs =>
    .pure ⟨first.line, first.line, hcs⟩).at first

end Grammar
end BantamSyntax
