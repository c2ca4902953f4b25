import BantamSyntax.Proofs.Parsing.Derivation
import BantamSyntax.Tree.Canonical

/-!
# Trees that are alike

Trees are equal as programs just if they are the same once all lines and file names are dropped.
What such trees are printed as does not tell them apart.
-/
namespace BantamSyntax

/-! ## bare trees -/

def Variable.bare : Variable → Variable
  | .plain _ name => .plain 0 name
  | .qualified _ receiver name => .qualified 0 receiver.bare name

mutual

/-- The expression with no line known. -/
def Expr.bare : Expr → Expr
  | .constant _ kind spelling => .constant 0 kind spelling
  | .var v => .var v.bare
  | .assign _ receiver name value => .assign 0 receiver name value.bare
  | .call _ receiver method _ arguments =>
    .call 0 (receiver.map Variable.bare) method 0 (Expr.bares arguments)
  | .new _ type => .new 0 type
  | .cast _ type operand => .cast 0 type operand.bare
  | .binary _ op left right => .binary 0 op left.bare right.bare
  | .unary _ op operand => .unary 0 op operand.bare

def Expr.bares : List Expr → List Expr
  | [] => []
  | e :: es => e.bare :: Expr.bares es

end

mutual

def Stmt.bare : Stmt → Stmt
  | .block _ _ body => .block 0 0 (Stmt.bares body)
  | .declare _ name init => .declare 0 name init.bare
  | .expr _ e => .expr 0 e.bare
  | .ifThen _ condition consequent => .ifThen 0 condition.bare consequent.bare
  | .ifElse _ condition consequent alternative =>
    .ifElse 0 condition.bare consequent.bare alternative.bare
  | .while _ condition body => .while 0 condition.bare body.bare
  | .for _ init condition update body =>
    .for 0 (init.map Expr.bare) (condition.map Expr.bare) (update.map Expr.bare) body.bare
  | .break _ => .break 0
  | .return _ value => .return 0 (value.map Expr.bare)

def Stmt.bares : List Stmt → List Stmt
  | [] => []
  | s :: ss => s.bare :: Stmt.bares ss

end

def Formal.bare (f : Formal) : Formal :=
  ⟨0, f.type, f.name⟩

def Member.bare : Member → Member
  | .field _ type name init => .field 0 type name (init.map Expr.bare)
  | .method _ type name _ formals _ body =>
    .method 0 type name 0 (formals.map Formal.bare) 0 (Stmt.bares body)

def ClassDecl.bare (c : ClassDecl) : ClassDecl :=
  ⟨0, c.name, c.parent, 0, c.members.map Member.bare, none⟩

def Program.bare (p : Program) : Program :=
  ⟨0, 0, p.classes.map ClassDecl.bare⟩

/-! ## equality -/

namespace Outline

@[simp] theorem same_node {l m : Label} {i j : Int} {cs ds : List Outline} :
    (node l i cs).same (node m j ds) = true ↔ l.bare = m.bare ∧ sameAll cs ds = true := by
  simp [same]

@[simp] theorem same_absent : absent.same absent = true := by
  rw [same]

@[simp] theorem not_same_absent_node {l : Label} {i : Int} {cs : List Outline} :
    ¬ absent.same (node l i cs) = true := by
  simp [same]

@[simp] theorem not_same_node_absent {l : Label} {i : Int} {cs : List Outline} :
    ¬ (node l i cs).same absent = true := by
  simp [same]

@[simp] theorem sameAll_nil : sameAll [] [] = true := by
  rw [sameAll]

@[simp] theorem sameAll_cons {c d : Outline} {cs ds : List Outline} :
    sameAll (c :: cs) (d :: ds) = true ↔ c.same d = true ∧ sameAll cs ds = true := by
  simp [sameAll]

@[simp] theorem not_sameAll_nil_cons {d : Outline} {ds : List Outline} :
    ¬ sameAll [] (d :: ds) = true := by
  simp [sameAll]

@[simp] theorem not_sameAll_cons_nil {c : Outline} {cs : List Outline} :
    ¬ sameAll (c :: cs) [] = true := by
  simp [sameAll]

/-- The outlines of the things tell them apart just as `g` does. -/
def TellsApart {α β : Type} (f : α → Outline) (g : α → β) : Prop :=
  ∀ a b, (f a).same (f b) = true ↔ g a = g b

theorem TellsApart.map {α β : Type} {f : α → Outline} {g : α → β} (h : TellsApart f g)
    (as bs : List α) : sameAll (as.map f) (bs.map f) = true ↔ as.map g = bs.map g := by
  induction as generalizing bs with
  | nil => cases bs <;> simp
  | cons a as ih => cases bs <;> simp [ih, h a]

theorem TellsApart.orAbsent {α β : Type} {f : α → Outline} {g : α → β} (h : TellsApart f g)
    (node : ∀ a, ∃ l i cs, f a = .node l i cs) (a b : Option α) :
    (orAbsent (a.map f)).same (.orAbsent (b.map f)) = true ↔ a.map g = b.map g := by
  cases a with
  | none =>
    cases b with
    | none => simp [Outline.orAbsent]
    | some b =>
      obtain ⟨l, i, cs, hb⟩ := node b
      simp [Outline.orAbsent, hb]
  | some a =>
    cases b with
    | none =>
      obtain ⟨l, i, cs, ha⟩ := node a
      simp [Outline.orAbsent, ha]
    | some b => simp [Outline.orAbsent, h a b]

end Outline

open Outline (TellsApart)

theorem Variable.outline_eq (v : Variable) :
    v.outline = .node (.var v.name) v.line [.orAbsent (v.receiver?.map Variable.outline)] := by
  cases v <;> rfl

theorem Variable.tellsApart : TellsApart Variable.outline Variable.bare := by
  intro v w
  induction v generalizing w with
  | plain line name =>
    cases w with
    | plain => simp [outline, bare, Label.bare]
    | qualified _ receiver => simp [outline, bare, Label.bare, outline_eq receiver]
  | qualified line receiver name ih =>
    cases w with
    | plain => simp [outline, bare, Label.bare, outline_eq receiver]
    | qualified => simp [outline, bare, Label.bare, ih, and_comm]

mutual

theorem Expr.tellsApart (e e' : Expr) : e.outline.same e'.outline = true ↔ e.bare = e'.bare := by
  match e with
  | .constant .. | .new .. =>
    cases e' <;> simp [outline, bare, Label.bare, Variable.outline_eq]
  | .var v =>
    cases e' with
    | var w => simp [outline, bare, Variable.tellsApart v w]
    | _ => simp [outline, bare, Label.bare, Variable.outline_eq]
  | .assign _ _ _ value =>
    cases e' with
    | assign => simp [outline, bare, Label.bare, Expr.tellsApart value, and_assoc]
    | _ => simp [outline, bare, Label.bare, Variable.outline_eq]
  | .call _ receiver _ _ arguments =>
    cases e' with
    | call _ receiver' _ _ arguments' =>
      have hr := Variable.tellsApart.orAbsent (fun v => ⟨_, _, _, v.outline_eq⟩) receiver receiver'
      simp [outline, bare, Label.bare, hr, Expr.tellsApart_all arguments, and_left_comm]
    | _ => simp [outline, bare, Label.bare, Variable.outline_eq]
  | .cast _ _ operand =>
    cases e' with
    | cast => simp [outline, bare, Label.bare, Expr.tellsApart operand]
    | _ => simp [outline, bare, Label.bare, Variable.outline_eq]
  | .binary _ _ left right =>
    cases e' with
    | binary => simp [outline, bare, Label.bare, Expr.tellsApart left, Expr.tellsApart right]
    | _ => simp [outline, bare, Label.bare, Variable.outline_eq]
  | .unary _ _ operand =>
    cases e' with
    | unary => simp [outline, bare, Label.bare, Expr.tellsApart operand]
    | _ => simp [outline, bare, Label.bare, Variable.outline_eq]

theorem Expr.tellsApart_all (es es' : List Expr) :
    Outline.sameAll (Expr.outlines es) (Expr.outlines es') = true ↔
      Expr.bares es = Expr.bares es' := by
  match es with
  | [] => cases es' <;> simp [outlines, bares]
  | e :: es =>
    cases es' with
    | nil => simp [outlines, bares]
    | cons => simp [outlines, bares, Expr.tellsApart e, Expr.tellsApart_all es]

end

theorem Expr.outline_eq_node (e : Expr) : ∃ l i cs, e.outline = .node l i cs := by
  cases e with
  | var v => exact ⟨_, _, _, v.outline_eq⟩
  | _ => exact ⟨_, _, _, rfl⟩

theorem Expr.same_outlineOr_iff (e e' : Option Expr) :
    (Expr.outlineOr e).same (Expr.outlineOr e') = true ↔ e.map Expr.bare = e'.map Expr.bare :=
  TellsApart.orAbsent Expr.tellsApart Expr.outline_eq_node e e'

theorem Stmt.outline_eq_node (s : Stmt) : ∃ l i cs, s.outline = .node l i cs := by
  cases s <;> exact ⟨_, _, _, rfl⟩

mutual

theorem Stmt.tellsApart (s s' : Stmt) : s.outline.same s'.outline = true ↔ s.bare = s'.bare := by
  match s with
  | .block _ _ body =>
    cases s' <;> simp [outline, bare, Label.bare, Stmt.tellsApart_all body]
  | .declare .. | .expr .. =>
    cases s' <;> simp [outline, bare, Label.bare, Expr.tellsApart _ _]
  | .ifThen _ _ consequent =>
    cases s' with
    | ifElse _ _ _ alternative =>
      obtain ⟨l, i, cs, h⟩ := alternative.outline_eq_node
      simp [outline, bare, Label.bare, h]
    | _ => simp [outline, bare, Label.bare, Expr.tellsApart _ _, Stmt.tellsApart consequent]
  | .ifElse _ _ consequent alternative =>
    cases s' with
    | ifThen =>
      obtain ⟨l, i, cs, h⟩ := alternative.outline_eq_node
      simp [outline, bare, Label.bare, h]
    | _ =>
      simp [outline, bare, Label.bare, Expr.tellsApart _ _, Stmt.tellsApart consequent,
        Stmt.tellsApart alternative]
  | .while _ _ body | .for _ _ _ _ body =>
    cases s' <;> simp [outline, bare, Label.bare, Expr.tellsApart _ _, Expr.same_outlineOr_iff,
      Stmt.tellsApart body]
  | .break .. | .return .. =>
    cases s' <;> simp [outline, bare, Label.bare, Expr.same_outlineOr_iff]

theorem Stmt.tellsApart_all (ss ss' : List Stmt) :
    Outline.sameAll (Stmt.outlines ss) (Stmt.outlines ss') = true ↔
      Stmt.bares ss = Stmt.bares ss' := by
  match ss with
  | [] => cases ss' <;> simp [outlines, bares]
  | s :: ss =>
    cases ss' with
    | nil => simp [outlines, bares]
    | cons => simp [outlines, bares, Stmt.tellsApart s, Stmt.tellsApart_all ss]

end

theorem Formal.tellsApart : TellsApart Formal.outline Formal.bare := by
  intro f g
  simp [outline, bare, Label.bare]

theorem Member.tellsApart : TellsApart Member.outline Member.bare := by
  intro m m'
  cases m with
  | field => cases m' <;> simp [outline, bare, Label.bare, Expr.same_outlineOr_iff, and_assoc]
  | method _ _ _ _ formals _ body =>
    cases m' with
    | field => simp [outline, Label.bare, bare]
    | method =>
      simp [outline, bare, Label.bare, Formal.tellsApart.map, Stmt.tellsApart_all body, and_assoc]

theorem ClassDecl.tellsApart : TellsApart ClassDecl.outline ClassDecl.bare := by
  intro c d
  simp [outline, bare, Label.bare, Member.tellsApart.map, and_assoc]

/-- Equality of programs is equality but for lines and file names. -/
theorem Program.same_iff (p q : Program) :
    (Node.program p).same (.program q) = true ↔ p.bare = q.bare := by
  simp [Node.same, Node.outline, outline, bare, Label.bare, ClassDecl.tellsApart.map]

/-! ## what trees that are alike share -/

@[simp] theorem Variable.name_bare (v : Variable) : v.bare.name = v.name := by
  cases v <;> rfl

@[simp] theorem Variable.receiver?_bare (v : Variable) :
    v.bare.receiver? = v.receiver?.map Variable.bare := by
  cases v <;> rfl

@[simp] theorem Variable.name_comp_bare : Variable.name ∘ Variable.bare = Variable.name :=
  funext name_bare

mutual

@[simp] theorem Expr.source_bare (e : Expr) : e.bare.source = e.source := by
  match e with
  | .constant .. | .new .. => rfl
  | .var v => simp [bare, source]
  | .assign _ _ _ value => simp [bare, source, Expr.source_bare value]
  | .call _ _ _ _ arguments => simp [bare, source, Expr.sources_bares arguments]
  | .cast _ _ operand => simp [bare, source, Expr.source_bare operand]
  | .binary _ _ left right => simp [bare, source, Expr.source_bare left, Expr.source_bare right]
  | .unary _ op operand => simp [bare, source, Expr.source_bare operand]

@[simp] theorem Expr.sources_bares (es : List Expr) :
    Expr.sources (Expr.bares es) = Expr.sources es := by
  match es with
  | [] => rfl
  | [e] => simp [bares, sources, Expr.source_bare e]
  | e :: e' :: es =>
    have := Expr.sources_bares (e' :: es)
    simp only [bares] at this
    simp [bares, sources, Expr.source_bare e, this]

end

@[simp] theorem Expr.sourceOr_bare (e : Option Expr) :
    Expr.sourceOr (e.map Expr.bare) = Expr.sourceOr e := by
  cases e <;> simp [sourceOr]

@[simp] theorem Stmt.depthUnder_bare (s : Stmt) (depth : Nat) :
    s.bare.depthUnder depth = s.depthUnder depth := by
  cases s <;> rfl

mutual

@[simp] theorem Stmt.lines_bare (s : Stmt) (depth : Nat) : s.bare.lines depth = s.lines depth := by
  match s with
  | .block _ _ body => simp [bare, lines, Stmt.linesAll_bares body]
  | .declare .. | .expr .. | .break .. | .return _ none | .return _ (some _) => simp [bare, lines]
  | .ifThen _ _ consequent => simp [bare, lines, Stmt.lines_bare consequent]
  | .ifElse _ _ consequent alternative =>
    simp [bare, lines, Stmt.lines_bare consequent, Stmt.lines_bare alternative]
  | .while _ _ body => simp [bare, lines, Stmt.lines_bare body]
  | .for _ _ _ _ body => simp [bare, lines, Stmt.lines_bare body]

@[simp] theorem Stmt.linesAll_bares (ss : List Stmt) (depth : Nat) :
    Stmt.linesAll depth (Stmt.bares ss) = Stmt.linesAll depth ss := by
  match ss with
  | [] => rfl
  | s :: ss => simp [bares, linesAll, Stmt.lines_bare s, Stmt.linesAll_bares ss]

end

@[simp] theorem Member.lines_bare (m : Member) (depth : Nat) :
    m.bare.lines depth = m.lines depth := by
  cases m with
  | field _ _ _ init => cases init <;> simp [bare, lines]
  | method =>
    have : Formal.text ∘ Formal.bare = Formal.text := rfl
    simp [bare, lines, Formal.texts, this]

theorem ClassDecl.source_bare (c : ClassDecl) (width indent : Int) :
    c.bare.source width indent = c.source width indent := by
  simp [source, bare, heading, List.flatMap_map]

theorem Program.source_bare (p : Program) (width indent : Int) :
    p.bare.source width indent = p.source width indent := by
  simp only [source, bare, List.map_map, Function.comp_def, ClassDecl.source_bare]

@[simp] theorem Stmt.dangles_bare (s : Stmt) : s.bare.dangles = s.dangles := by
  match s with
  | .ifElse _ _ _ alternative => exact Stmt.dangles_bare alternative
  | .while _ _ body => exact Stmt.dangles_bare body
  | .for _ _ _ _ body => exact Stmt.dangles_bare body
  | .ifThen .. | .block .. | .declare .. | .expr .. | .break .. | .return .. => rfl

mutual

@[simp] theorem Stmt.settled_bare (s : Stmt) : s.bare.settled = s.settled := by
  match s with
  | .block _ _ body => simp [bare, settled, Stmt.allSettled_bares body]
  | .ifThen _ _ consequent => simp [bare, settled, Stmt.settled_bare consequent]
  | .ifElse _ _ consequent alternative =>
    simp [bare, settled, Stmt.settled_bare consequent, Stmt.settled_bare alternative]
  | .while _ _ body => simp [bare, settled, Stmt.settled_bare body]
  | .for _ _ _ _ body => simp [bare, settled, Stmt.settled_bare body]
  | .declare .. | .expr .. | .break .. | .return .. => rfl

@[simp] theorem Stmt.allSettled_bares (ss : List Stmt) :
    Stmt.allSettled (Stmt.bares ss) = Stmt.allSettled ss := by
  match ss with
  | [] => rfl
  | s :: ss => simp [bares, allSettled, Stmt.settled_bare s, Stmt.allSettled_bares ss]

end

@[simp] theorem Member.settled_bare (m : Member) : m.bare.settled = m.settled := by
  cases m <;> simp [bare, settled]

theorem Program.settled_bare (p : Program) : p.bare.settled = p.settled := by
  simp [bare, settled, ClassDecl.bare, List.all_map, Function.comp_def]

end BantamSyntax
