import BantamSyntax.Tree.Walk
import Mathlib.Data.List.Forall2

/-!
# Children

The children of a node of whatever sort, in the order of the text, and the addresses of the nodes
below it. The outline of a node has its label, its line and the outlines of its children.
-/
namespace BantamSyntax

/-! ## nodes by themselves -/

def Expr.line : Expr → Int
  | .constant line .. => line
  | .var v => v.line
  | .assign line .. => line
  | .call line .. => line
  | .new line _ => line
  | .cast line .. => line
  | .binary line .. => line
  | .unary line .. => line

def Stmt.line : Stmt → Int
  | .block line .. => line
  | .declare line .. => line
  | .expr line _ => line
  | .ifThen line .. => line
  | .ifElse line .. => line
  | .while line .. => line
  | .for line .. => line
  | .break line => line
  | .return line _ => line

def Member.line : Member → Int
  | .field line .. => line
  | .method line .. => line

def Expr.label : Expr → Label
  | .constant _ kind spelling => .constant kind spelling
  | .var v => .var v.name
  | .assign _ receiver name _ => .assign receiver name
  | .call _ _ method _ _ => .call method
  | .new _ type => .new type
  | .cast _ type _ => .cast type
  | .binary _ op _ _ => .binary op
  | .unary _ op _ => .unary op

def Stmt.label : Stmt → Label
  | .block .. => .block
  | .declare _ name _ => .declare name
  | .expr .. => .exprStmt
  | .ifThen .. => .ifStmt
  | .ifElse .. => .ifStmt
  | .while .. => .whileStmt
  | .for .. => .forStmt
  | .break _ => .breakStmt
  | .return .. => .returnStmt

def Member.label : Member → Label
  | .field _ type name _ => .field type name
  | .method _ type name .. => .method type name

namespace Node

def line : Node → Int
  | .program p => p.line
  | .classDecl c => c.line
  | .member m => m.line
  | .formal f => f.line
  | .stmt s => s.line
  | .expr e => e.line
  | .list _ line _ => line

def label : Node → Label
  | .program _ => .program
  | .classDecl c => .classDecl c.name c.parent c.file
  | .member m => m.label
  | .formal f => .formal f.type f.name
  | .stmt s => s.label
  | .expr e => e.label
  | .list kind _ _ => .list kind

/-! ## children -/

/-- The children that are there. -/
def children (n : Node) : List Node :=
  n.fields.filterMap (·.2) ++ n.elements

/-- The node at an address, which tells at each step the place among the children. -/
def at? (n : Node) : List Nat → Option Node
  | [] => some n
  | i :: address => n.children[i]?.bind fun c => c.at? address

@[simp] theorem at?_nil (n : Node) : n.at? [] = some n := rfl

@[simp] theorem at?_cons (n : Node) (i : Nat) (address : List Nat) :
    n.at? (i :: address) = n.children[i]?.bind fun c => c.at? address := rfl

end Node

/-! ## outlines -/

theorem Expr.outlines_eq (es : List Expr) : Expr.outlines es = es.map Expr.outline := by
  induction es with
  | nil => rfl
  | cons e es ih => simp [Expr.outlines, ih]

theorem Stmt.outlines_eq (ss : List Stmt) : Stmt.outlines ss = ss.map Stmt.outline := by
  induction ss with
  | nil => rfl
  | cons s ss ih => simp [Stmt.outlines, ih]

theorem Node.outlines_eq (ns : List Node) : Node.outlines ns = ns.map Node.outline := by
  induction ns with
  | nil => rfl
  | cons n ns ih => simp [Node.outlines, ih]

namespace Outline

def isPresent : Outline → Bool
  | absent => false
  | node .. => true

@[simp] theorem isPresent_absent : absent.isPresent = false := rfl

@[simp] theorem isPresent_node {l : Label} {i : Int} {cs : List Outline} :
    (node l i cs).isPresent = true := rfl

end Outline

open Outline (isPresent)

@[simp] theorem Variable.isPresent_outline (v : Variable) : isPresent v.outline = true := by
  cases v <;> rfl

@[simp] theorem Expr.isPresent_outline (e : Expr) : isPresent e.outline = true := by
  cases e with
  | var v => exact v.isPresent_outline
  | _ => rfl

@[simp] theorem Stmt.isPresent_outline (s : Stmt) : isPresent s.outline = true := by
  cases s <;> rfl

@[simp] theorem Member.isPresent_outline (m : Member) : isPresent m.outline = true := by
  cases m <;> rfl

/-! ## what outlines show -/

/-- The outline shows the label and the line, and just the children that are there. -/
def Outline.Shows (o : Outline) (label : Label) (line : Int) (children : List Node) : Prop :=
  ∃ cs, o = .node label line cs ∧ cs.filter isPresent = children.map Node.outline

namespace Node

@[simp] theorem outline_expr (e : Expr) : (Node.expr e).outline = e.outline := rfl

@[simp] theorem outline_stmt (s : Stmt) : (Node.stmt s).outline = s.outline := rfl

@[simp] theorem outline_member (m : Member) : (Node.member m).outline = m.outline := rfl

@[simp] theorem outline_formal (f : Formal) : (Node.formal f).outline = f.outline := rfl

@[simp] theorem outline_classDecl (c : ClassDecl) : (Node.classDecl c).outline = c.outline := rfl

@[simp] theorem outline_program (p : Program) : (Node.program p).outline = p.outline := rfl

@[simp] theorem outline_list (kind : ListKind) (line : Int) (ns : List Node) :
    (Node.list kind line ns).outline = .node (.list kind) line (ns.map outline) := by
  simp [outline, outlines_eq]

@[simp] theorem isPresent_outline (n : Node) : isPresent n.outline = true := by
  cases n <;> simp [ClassDecl.outline, Program.outline, Formal.outline]

theorem shows_var (v : Variable) :
    v.outline.Shows (.var v.name) v.line (children (.ofVariable v)) := by
  cases v <;> simp [Outline.Shows, Variable.outline, Variable.line, Variable.name,
    Variable.receiver?, children, fields, elements, ofVariable, Expr.outline]

theorem shows_expr (e : Expr) : e.outline.Shows e.label e.line (children (.expr e)) := by
  cases e with
  | var v => exact shows_var v
  | call _ receiver =>
    cases receiver <;> simp [Outline.Shows, Expr.outline, Expr.outlines_eq, Outline.orAbsent,
      Expr.label, Expr.line, children, fields, elements, ofExprs, ofVariable, Function.comp_def]
  | _ => simp [Outline.Shows, Expr.outline, Expr.label, Expr.line, children, fields, elements]

theorem shows_stmt (s : Stmt) : s.outline.Shows s.label s.line (children (.stmt s)) := by
  cases s with
  | «for» _ init condition update =>
    cases init <;> cases condition <;> cases update <;>
      simp [Outline.Shows, Stmt.outline, Expr.outlineOr, Outline.orAbsent, Stmt.label, Stmt.line,
        children, fields, elements]
  | «return» _ value =>
    cases value <;> simp [Outline.Shows, Stmt.outline, Expr.outlineOr, Outline.orAbsent,
      Stmt.label, Stmt.line, children, fields, elements]
  | _ =>
    simp [Outline.Shows, Stmt.outline, Stmt.outlines_eq, Stmt.label, Stmt.line, children, fields,
      elements, ofStmts, Function.comp_def]

theorem shows_member (m : Member) : m.outline.Shows m.label m.line (children (.member m)) := by
  cases m with
  | field _ _ _ init =>
    cases init <;> simp [Outline.Shows, Member.outline, Expr.outlineOr, Outline.orAbsent,
      Member.label, Member.line, children, fields, elements]
  | method =>
    simp [Outline.Shows, Member.outline, Stmt.outlines_eq, Member.label, Member.line, children,
      fields, elements, ofStmts, ofFormals, Function.comp_def]

/-- What the outline of a node shows is what the node has. -/
theorem shows (n : Node) : n.outline.Shows n.label n.line n.children := by
  cases n with
  | expr e => exact shows_expr e
  | stmt s => exact shows_stmt s
  | member m => exact shows_member m
  | program p =>
    simp [Outline.Shows, Program.outline, label, line, children, fields, elements,
      Function.comp_def]
  | _ =>
    simp [Outline.Shows, ClassDecl.outline, Formal.outline, label, line, children, fields,
      elements, Function.comp_def]

theorem sizeOf_outline_lt {n c : Node} (child : c ∈ n.children) :
    sizeOf c.outline < sizeOf n.outline := by
  obtain ⟨cs, eq, kept⟩ := n.shows
  have mem : c.outline ∈ cs := by
    have : c.outline ∈ cs.filter isPresent := kept ▸ List.mem_map_of_mem child
    exact (List.mem_filter.1 this).1
  have := List.sizeOf_lt_of_mem mem
  simp [eq]
  omega

/-- What holds of a node when it holds of its children holds of every node. -/
@[elab_as_elim]
theorem children_induction {motive : Node → Prop}
    (node : ∀ n, (∀ c ∈ n.children, motive c) → motive n) (n : Node) : motive n :=
  node n fun c _ => children_induction node c
termination_by sizeOf n.outline
decreasing_by exact sizeOf_outline_lt ‹_›

end Node

/-! ## walks and rows over children -/

namespace Outline

theorem walkAll_eq (hooks : Hooks) (cs : List Outline) :
    walkAll hooks cs = (cs.filter isPresent).flatMap fun c => (c.walk hooks).1 := by
  induction cs with
  | nil => rfl
  | cons c cs ih => cases c <;> simp [walkAll, ih, walk, List.filter_cons]

/-- The labels and the lines of the nodes in preorder. -/
def entries (o : Outline) : List (Label × Int) :=
  (o.rows 0).filterMap (·.node)

mutual

theorem filterMap_rows (depth : Nat) : (o : Outline) →
    (o.rows depth).filterMap (·.node) = o.entries
  | absent => rfl
  | node _ _ cs => by simp [entries, rows, filterMap_rowsAll]

theorem filterMap_rowsAll (depth : Nat) : (cs : List Outline) →
    (rowsAll depth cs).filterMap (·.node) = cs.flatMap entries
  | [] => rfl
  | c :: cs => by simp [rowsAll, filterMap_rows, filterMap_rowsAll]

end

@[simp] theorem entries_absent : absent.entries = [] := rfl

@[simp] theorem entries_node {l : Label} {i : Int} {cs : List Outline} :
    (node l i cs).entries = (l, i) :: cs.flatMap entries := by
  simp [entries, rows, filterMap_rowsAll]

theorem flatMap_entries (cs : List Outline) :
    cs.flatMap entries = (cs.filter isPresent).flatMap entries := by
  induction cs with
  | nil => rfl
  | cons c cs ih => cases c <;> simp [ih, List.filter_cons]

end Outline

namespace Node

theorem walk_outline (hooks : Hooks) (n : Node) :
    n.outline.walk hooks = Outline.chain hooks n.label.className n.line
      (n.children.flatMap fun c => (c.outline.walk hooks).1) n.label.visits := by
  obtain ⟨cs, eq, kept⟩ := n.shows
  simp [eq, Outline.walk, Outline.walkAll_eq, kept, List.flatMap_map]

theorem entries_outline (n : Node) :
    n.outline.entries = (n.label, n.line) :: n.children.flatMap fun c => c.outline.entries := by
  obtain ⟨cs, eq, kept⟩ := n.shows
  simp [eq, Outline.flatMap_entries, kept, List.flatMap_map]

end Node

/-! ## below nodes beside each other -/

namespace Node

section Under

variable {α β : Type} {put : Nat → α → α} {P : Node → α → Prop} {R : α → α → Prop}
  {n : Node} {ns : List Node} {place : Nat} {x : α}

/-- It stands below one of the nodes, of which it satisfies `P` as it is seen from there; the first
of the nodes has that place. -/
def Under (put : Nat → α → α) (P : Node → α → Prop) (place : Nat) (ns : List Node) (x : α) : Prop :=
  ∃ i m y, ns[i]? = some m ∧ P m y ∧ x = put (place + i) y

@[simp] theorem not_under_nil : ¬ Under put P place [] x := by
  simp [Under]

theorem under_cons : Under put P place (n :: ns) x ↔
    (∃ y, P n y ∧ x = put place y) ∨ Under put P (place + 1) ns x := by
  constructor
  · rintro ⟨_ | i, m, y, eq, h, rfl⟩
    · cases eq
      exact .inl ⟨y, h, rfl⟩
    · exact .inr ⟨i, m, y, eq, h, by simp [Nat.add_right_comm, Nat.add_assoc]⟩
  · rintro (⟨y, h, rfl⟩ | ⟨i, m, y, eq, h, rfl⟩)
    · exact ⟨0, n, y, rfl, h, rfl⟩
    · exact ⟨i + 1, m, y, eq, h, by simp [Nat.add_right_comm, Nat.add_assoc]⟩

/-- If the order holds below one node as it is seen from there, and of two nodes the earlier comes
first, then the lists of the nodes together are the list of all that stands below them. -/
theorem exists_beside {Q : Node → α → β → Prop} {results : Node → List β}
    (inside : ∀ i x y, R x y → R (put i x) (put i y))
    (across : ∀ i j x y, i < j → R (put i x) (put j y)) (place : Nat) (ns : List Node)
    (lists : ∀ n ∈ ns, ∃ xs, (∀ x, x ∈ xs ↔ P n x) ∧ xs.Pairwise R ∧
      List.Forall₂ (Q n) xs (results n)) :
    ∃ xs, (∀ x, x ∈ xs ↔ Under put P place ns x) ∧ xs.Pairwise R ∧
      List.Forall₂ (fun x b => Under put (fun n y => Q n y b) place ns x) xs
        (ns.flatMap results) := by
  induction ns generalizing place with
  | nil => exact ⟨[], by simp⟩
  | cons n ns ih =>
    obtain ⟨first, mem, ordered, related⟩ := lists n (by simp)
    obtain ⟨rest, mem', ordered', related'⟩ := ih (place + 1) fun n hn => lists n (by simp [hn])
    refine ⟨first.map (put place) ++ rest, fun x => ?_, ?_, ?_⟩
    · simp [under_cons, mem, mem', eq_comm]
    · have before : ∀ x ∈ first.map (put place), ∀ y ∈ rest, R x y := by
        simp only [List.forall_mem_map, mem']
        rintro x - _ ⟨i, m, y, -, -, rfl⟩
        exact across _ _ x y (by omega)
      have within : (first.map (put place)).Pairwise R :=
        List.pairwise_map.2 (ordered.imp (inside place _ _))
      exact List.pairwise_append.2 ⟨within, ordered', before⟩
    · have here (x : α) (b : β) (h : Q n x b) :
          Under put (fun n y => Q n y b) place (n :: ns) (put place x) :=
        under_cons.2 (.inl ⟨x, h, rfl⟩)
      exact List.rel_append (List.forall₂_map_left_iff.2 (related.imp here))
        (related'.imp fun x b h => under_cons.2 (.inr h))

end Under
end Node

end BantamSyntax
