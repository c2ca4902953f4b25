import BantamSyntax.Proofs.Parsing.Positions
import BantamSyntax.Proofs.Parsing.WellFormed
import BantamSyntax.Proofs.Printing.Printers

/-!
# Lines of a dump

Which nodes of a tree have a line in its dump, and how far in that line stands. Lists and expression
statements have none, and parameters and receivers are told in the line of the node they belong to.
-/
namespace BantamSyntax
namespace Node

/-! ## counted nodes -/

/-- What the line of a node says, if the node has one in a tree. -/
def caption? : Node → Option String
  | .program _ => some Program.caption
  | .classDecl c => some c.caption
  | .member m => some m.caption
  | .formal _ => none
  | .stmt (.expr ..) => none
  | .stmt s => some s.caption
  | .expr e => some e.caption
  | .list .. => none

/-- How much further in the children stand. -/
def steps (n : Node) : Nat :=
  n.caption?.toList.length

/-- The receiver of a variable or of a call. -/
def receiver? : Node → Option Variable
  | .expr (.var v) => v.receiver?
  | .expr (.call _ receiver ..) => receiver
  | _ => none

/-- A receiver stands at the address; it is the first child of its owner. -/
def isReceiver (n : Node) (address : List Nat) : Bool :=
  address.getLast? = some 0 && ((n.at? address.dropLast).bind receiver?).isSome

/-- The node at the address has a line of its own. -/
def isCounted (n : Node) (address : List Nat) : Bool :=
  (n.at? address).any (·.caption?.isSome) && !n.isReceiver address

/-- How many of the nodes over the address have a line of their own. -/
def countedAbove (n : Node) (address : List Nat) : Nat :=
  (List.range address.length).countP fun k => n.isCounted (address.take k)

/-- The line is that of the node at the address, when the tree stands that deep. -/
def IsLine (n : Node) (depth : Nat) (address : List Nat) (l : Line) : Prop :=
  ∃ m label, n.at? address = some m ∧ m.caption? = some label ∧
    l = ⟨depth + n.countedAbove address, label⟩

/-! ## receivers and other children -/

/-- The children without the receiver. -/
def others : Node → List Node
  | .expr (.var _) => []
  | .expr (.call _ _ _ argumentsLine arguments) => [ofExprs argumentsLine arguments]
  | n => n.children

/-- How many children there are before the others. -/
def receivers (n : Node) : Nat :=
  n.receiver?.toList.length

theorem children_eq (n : Node) : n.children = n.receiver?.toList.map ofVariable ++ n.others := by
  cases n with
  | expr e =>
    cases e with
    | var v => cases v <;> rfl
    | call _ receiver => cases receiver <;> rfl
    | _ => rfl
  | _ => rfl

theorem children_of_others {n c : Node} (hc : c ∈ n.others) : c ∈ n.children := by
  simp [children_eq, hc]

variable {n m : Node} {i depth : Nat} {address : List Nat}

theorem getElem?_others (n : Node) (i : Nat) : n.children[n.receivers + i]? = n.others[i]? := by
  rw [children_eq, receivers, List.getElem?_append_right (by simp)]
  simp

@[simp] theorem isReceiver_nil (n : Node) : n.isReceiver [] = false := rfl

theorem isReceiver_singleton (n : Node) (i : Nat) :
    n.isReceiver [i] = (i = 0 && n.receiver?.isSome) := by
  simp [isReceiver]

theorem isReceiver_cons_cons {j : Nat} (h : n.children[i]? = some m) :
    n.isReceiver (i :: j :: address) = m.isReceiver (j :: address) := by
  simp [isReceiver, h]

theorem isReceiver_other (h : n.others[i]? = some m) (address : List Nat) :
    n.isReceiver ((n.receivers + i) :: address) = m.isReceiver address := by
  cases address with
  | nil =>
    rw [isReceiver_singleton, receivers]
    cases n.receiver? <;> simp
  | cons => exact isReceiver_cons_cons (by rw [getElem?_others, h])

theorem isCounted_other (h : n.others[i]? = some m) (address : List Nat) :
    n.isCounted ((n.receivers + i) :: address) = m.isCounted address := by
  simp [isCounted, isReceiver_other h, getElem?_others, h]

theorem countedAbove_other (h : n.others[i]? = some m) (address : List Nat) :
    n.countedAbove ((n.receivers + i) :: address) =
      n.steps + m.countedAbove address := by
  rw [countedAbove, List.length_cons, List.range_succ_eq_map, List.countP_cons, List.countP_map]
  have below : (fun k => n.isCounted (((n.receivers + i) :: address).take k)) ∘ Nat.succ =
      fun k => m.isCounted (address.take k) := by
    funext k
    simp [isCounted_other h]
  rw [below, ← countedAbove, Nat.add_comm]
  cases hn : n.caption? <;> simp [isCounted, steps, hn]

/-- A receiver has no line, nor has what is below it: there are receivers alone. -/
theorem isCounted_receiver (h : i < n.receivers) (address : List Nat) :
    n.isCounted (i :: address) = false := by
  induction address generalizing n i with
  | nil =>
    rw [receivers] at h
    cases hr : n.receiver? with
    | none => simp [hr] at h
    | some r =>
      have first : i = 0 := by simpa [hr] using h
      simp [isCounted, isReceiver_singleton, first, hr]
  | cons j address ih =>
    rw [receivers] at h
    cases hr : n.receiver? with
    | none => simp [hr] at h
    | some r =>
      have child : n.children[i]? = some (ofVariable r) := by
        have first : i = 0 := by simpa [hr] using h
        simp [children_eq, hr, first]
      have same : n.isCounted (i :: j :: address) = (ofVariable r).isCounted (j :: address) := by
        simp [isCounted, isReceiver_cons_cons child, child]
      rw [same]
      rcases Nat.lt_or_ge j (ofVariable r).receivers with receiver | other
      · exact ih receiver
      · obtain ⟨k, rfl⟩ := Nat.exists_eq_add_of_le other
        have none : (ofVariable r).others[k]? = none := rfl
        simp [isCounted, getElem?_others, none]

theorem isCounted_iff : n.isCounted address = true ↔
    address = [] ∧ n.caption?.isSome ∨
      Under List.cons (fun m below => m.isCounted below = true) n.receivers n.others address := by
  cases address with
  | nil => simp [isCounted, Under]
  | cons i address =>
    constructor
    · intro h
      rcases Nat.lt_or_ge i n.receivers with receiver | other
      · simp [isCounted_receiver receiver] at h
      · obtain ⟨j, rfl⟩ := Nat.exists_eq_add_of_le other
        cases hm : n.others[j]? with
        | none => simp [isCounted, getElem?_others, hm] at h
        | some m => exact .inr ⟨j, m, address, hm, (isCounted_other hm address).symm.trans h, rfl⟩
    · rintro (⟨⟨⟩, _⟩ | ⟨j, m, below, hm, h, ⟨⟩⟩)
      rw [isCounted_other hm, h]

theorem Under.isLine {l : Line} (h : Under List.cons (fun m below =>
      m.IsLine (depth + n.steps) below l) n.receivers n.others address) :
    n.IsLine depth address l := by
  obtain ⟨i, child, below, hc, ⟨m, label, hm, caption, rfl⟩, rfl⟩ := h
  refine ⟨m, label, by simp [getElem?_others, hc, hm], caption, ?_⟩
  rw [countedAbove_other hc, Nat.add_assoc]

/-! ## lines in a tree -/

mutual

/-- The lines of a node where it stands in a tree. -/
def shown (depth : Nat) : Node → List Line
  | .list _ _ elements => shownAll depth elements
  | .formal _ => []
  | n => n.dump depth

def shownAll (depth : Nat) : List Node → List Line
  | [] => []
  | n :: ns => n.shown depth ++ shownAll depth ns

end

theorem shownAll_eq (depth : Nat) (ns : List Node) :
    shownAll depth ns = ns.flatMap (shown depth) := by
  induction ns with
  | nil => rfl
  | cons n ns ih => simp [shownAll, ih]

theorem shown_expr (depth : Nat) (e : Expr) : (Node.expr e).shown depth = e.dump depth := by
  simp [shown, dump]

theorem shown_stmt (depth : Nat) (s : Stmt) : (Node.stmt s).shown depth = s.dump depth := by
  simp [shown, dump]

theorem shown_exprs (depth : Nat) (line : Int) (es : List Expr) :
    (ofExprs line es).shown depth = Expr.dumpAll depth es := by
  rw [ofExprs, shown, shownAll_eq]
  induction es with
  | nil => rfl
  | cons e es ih => simp [Expr.dumpAll, shown_expr, ← ih]

theorem shown_stmts (depth : Nat) (line : Int) (ss : List Stmt) :
    (ofStmts line ss).shown depth = Stmt.dumpAll depth ss := by
  rw [ofStmts, shown, shownAll_eq]
  induction ss with
  | nil => rfl
  | cons s ss ih => simp [Stmt.dumpAll, shown_stmt, ← ih]

theorem shown_formals (depth : Nat) (line : Int) (fs : List Formal) :
    (ofFormals line fs).shown depth = [] := by
  simp [ofFormals, shown, shownAll_eq]

/-- A node shows its own line, and its children show theirs below it. -/
theorem shown_eq (depth : Nat) (n : Node) :
    n.shown depth = n.caption?.toList.map (Line.mk depth) ++
      n.others.flatMap (shown (depth + n.steps)) := by
  cases n with
  | expr e =>
    cases e <;> simp [shown_expr, shown_exprs, Expr.dump, caption?, steps, others, children,
      fields, elements]
  | stmt s =>
    cases s with
    | «for» _ init condition update =>
      cases init <;> cases condition <;> cases update <;>
        simp [shown_stmt, shown_expr, Stmt.dump, Expr.dumpOr, caption?, steps, others, children,
          fields, elements]
    | «return» _ value =>
      cases value <;> simp [shown_stmt, shown_expr, Stmt.dump, Expr.dumpOr, caption?, steps,
        others, children, fields, elements]
    | _ =>
      simp [shown_stmt, shown_expr, shown_stmts, Stmt.dump, caption?, steps, others, children,
        fields, elements]
  | member m =>
    cases m with
    | field _ _ _ init =>
      cases init <;> simp [shown, dump, Member.dump, Expr.dumpOr, caption?, steps, others,
        children, fields, elements]
    | method =>
      simp [shown, dump, shown_stmts, shown_formals, Member.dump, caption?, steps, others, children,
        fields, elements]
  | program p =>
    simp [shown, dump, shownAll_eq, Program.dump, caption?, steps, others, children, fields,
      elements, List.flatMap_map]
  | _ =>
    simp [shown, dump, shownAll_eq, ClassDecl.dump, caption?, steps, others, children, fields,
      elements, List.flatMap_map]

/-! ## lines and their places -/

/-- The lines are those of the nodes that have one, each once and in their order. -/
structure IsListing (n : Node) (depth : Nat) (places : List (List Nat)) (ls : List Line) :
    Prop where
  counted : ∀ a, a ∈ places ↔ n.isCounted a = true
  ordered : places.Pairwise (· < ·)
  lines : List.Forall₂ (n.IsLine depth) places ls

theorem exists_listing (n : Node) (depth : Nat) :
    ∃ places, IsListing n depth places (n.shown depth) := by
  induction n using Node.children_induction generalizing depth with
  | node n ih =>
    have others : ∀ c ∈ n.others, ∃ places, (∀ a, a ∈ places ↔ c.isCounted a = true) ∧
        places.Pairwise (· < ·) ∧
        List.Forall₂ (c.IsLine (depth + n.steps)) places (c.shown (depth + n.steps)) := by
      intro c hc
      obtain ⟨places, counted, ordered, lines⟩ := ih c (children_of_others hc) (depth + n.steps)
      exact ⟨places, counted, ordered, lines⟩
    have inside (i : Nat) (a b : List Nat) (lt : a < b) : i :: a < i :: b :=
      List.cons_lt_cons_iff.2 (.inr ⟨rfl, lt⟩)
    have across (i j : Nat) (a b : List Nat) (lt : i < j) : i :: a < j :: b :=
      List.cons_lt_cons_iff.2 (.inl lt)
    obtain ⟨below, mem, ordered, lines⟩ := exists_beside inside across n.receivers n.others others
    have lines := lines.imp fun a l h => h.isLine
    rw [shown_eq]
    cases caption : n.caption? with
    | none =>
      refine ⟨below, fun a => ?_, ordered, by simpa using lines⟩
      rw [mem, isCounted_iff, caption]
      simp
    | some label =>
      have own : n.IsLine depth [] ⟨depth, label⟩ := ⟨n, label, rfl, caption, rfl⟩
      refine ⟨[] :: below, fun a => ?_, ?_, by simpa using ⟨own, lines⟩⟩
      · rw [List.mem_cons, mem, isCounted_iff, caption]
        simp
      · have first : ∀ a ∈ below, [] < a := by
          intro a ha
          obtain ⟨i, m, rest, _, _, rfl⟩ := (mem a).1 ha
          exact List.nil_lt_cons _ _
        exact List.pairwise_cons.2 ⟨first, ordered⟩

/-! ## trees of texts -/

variable {file label : String}

theorem Sound.child {c : Node} (h : n.Sound file) (hc : c ∈ n.children) : c.Sound file := by
  rcases List.mem_append.1 hc with field | element
  · obtain ⟨entry, mem, eq⟩ := List.mem_filterMap.1 field
    exact h.children entry mem c eq
  · exact h.elements c element

theorem Sound.at (h : n.Sound file) (hm : n.at? address = some m) : m.Sound file := by
  induction address generalizing n with
  | nil =>
    cases hm
    exact h
  | cons i address ih =>
    obtain ⟨c, hc, hm⟩ := Option.bind_eq_some_iff.1 hm
    exact ih (h.child (List.mem_of_getElem? hc)) hm

theorem Sound.oneLine_caption (h : n.Sound file) (caption : n.caption? = some label) :
    OneLine label := by
  cases h with
  | program =>
    cases caption
    simp [OneLine, Program.caption]
  | classDecl valid =>
    cases caption
    exact ClassDecl.oneLine_caption valid
  | member valid =>
    cases caption
    exact Member.oneLine_caption valid
  | @stmt s valid =>
    cases s with
    | expr => cases caption
    | _ =>
      cases caption
      exact Stmt.oneLine_caption valid
  | expr valid =>
    cases caption
    exact Expr.oneLine_caption valid
  | formal => cases caption
  | list => cases caption

theorem Sound.oneLine_shown (h : n.Sound file) {l : Line} (hl : l ∈ n.shown depth) :
    OneLine l.text := by
  induction n using Node.children_induction generalizing depth with
  | node n ih =>
    rw [shown_eq] at hl
    rcases List.mem_append.1 hl with own | below
    · obtain ⟨label, caption, rfl⟩ := List.mem_map.1 own
      exact h.oneLine_caption (Option.mem_toList.1 caption)
    · obtain ⟨c, hc, hl⟩ := List.mem_flatMap.1 below
      have child := children_of_others hc
      exact ih c child (h.child child) hl

/--
The dump of a parsed text has one line for each node that has a line, in the order of the text. Each
line has two blanks for every node over its own that has a line too, and then says what its node is.
-/
theorem dump_lines {text name : String} {p : Program} {q : Parser}
    (parsed : (Source.ofText text name).parse = .ok p q) :
    let root := Node.program p
    ∃ places, (∀ a, a ∈ places ↔ root.isCounted a = true) ∧ places.Pairwise (· < ·) ∧
      List.Forall₂ (fun a line => ∃ m label, root.at? a = some m ∧ m.caption? = some label ∧
          line = Line.blanks (2 * root.countedAbove a) ++ label)
        places (textLines (root.printDump.run 0).1) ∧
      ∀ a n, root.at? a = some n →
        ∃ w, w <:+: Grammar.tokens text ∧ Grammar.InOrder name w n.children := by
  intro root
  obtain ⟨places, counted, ordered, lines⟩ := exists_listing root 0
  have sound : root.Sound name := Grammar.sound_of_parse parsed
  have shows : root.dump 0 = root.shown 0 := by simp only [root, shown]
  have some : root.shown 0 ≠ [] := by simp [shown_eq, root, caption?]
  have split : textLines (root.printDump.run 0).1 =
      (root.shown 0).map (Line.render Printer.dumpWidth 0) := by
    rw [run_printDump, dumpText, shows]
    exact Line.textLines_renderAll some (fun l hl => sound.oneLine_shown hl) _ _
  refine ⟨places, counted, ordered, ?_, fun a n here => ?_⟩
  · rw [split, List.forall₂_map_right_iff]
    refine lines.imp fun a l ⟨m, label, hm, caption, eq⟩ => ⟨m, label, hm, caption, ?_⟩
    rw [eq, Line.render, Printer.dumpWidth]
    congr 2
    push_cast
    ring
  · obtain ⟨w, inside, made⟩ := (Grammar.makes_of_parse parsed).at here
    exact ⟨w, inside, made.children⟩

/-- A parameter, a receiver and an expression statement have no line, nor what is left out. -/
theorem dump_lines_call :
    let text := "class A \x7b int f(int a) \x7b for (;;) this.g(super.x, -1); \x7d \x7d"
    ∃ p q, ∃ places : List (List Nat), (Source.ofText text).parse = .ok p q ∧
      textLines ((Node.program p).printDump.run 0).1 =
        ["Program", "  Class A", "    Method int f(int a)", "      For", "        Call(this.g)",
          "          Var(super.x)", "          Unary(-)", "            ConstIntExpr(1)"] ∧
      (∀ a, a ∈ places ↔ (Node.program p).isCounted a = true) ∧
      places.length = 8 := by
  intro text
  have printed : (parseText text).toOption.map (fun p =>
      textLines ((Node.program p).printDump.run 0).1) = some
        ["Program", "  Class A", "    Method int f(int a)", "      For", "        Call(this.g)",
          "          Var(super.x)", "          Unary(-)", "            ConstIntExpr(1)"] := by
    decide +kernel
  cases parsed : parseText text with
  | error => rw [parsed] at printed; cases printed
  | ok p =>
    obtain ⟨q, hq, -⟩ := Grammar.parse_of_parseText parsed
    rw [parsed] at printed
    have lines := Option.some.inj printed
    obtain ⟨places, counted, -, listed, -⟩ := dump_lines hq
    exact ⟨p, q, places, hq, lines, counted, listed.length_eq.trans (congrArg List.length lines)⟩

end Node
end BantamSyntax
