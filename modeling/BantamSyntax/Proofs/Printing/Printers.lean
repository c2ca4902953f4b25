import BantamSyntax.Proofs.Printing.Lines
import BantamSyntax.Tree.Printer

/-!
# What printers give

A printer gives the lines of a node as they stand at the indentation where the printer is, and ends
at the same indentation.
-/
namespace BantamSyntax

open Printer Line

namespace Printer

variable {α β : Type}

theorem run_bind (x : PrinterM α) (f : α → PrinterM β) (i : Int) :
    (x >>= f).run i = (f (x.run i).1).run (x.run i).2 := rfl

theorem run_pure (a : α) (i : Int) : (pure a : PrinterM α).run i = (a, i) := rfl

theorem run_mapM {f : α → PrinterM β} {value : α → Int → β} (as : List α)
    (h : ∀ a ∈ as, ∀ i, (f a).run i = (value a i, i)) (i : Int) :
    (as.mapM f).run i = (as.map (value · i), i) := by
  induction as with
  | nil => rfl
  | cons a as ih =>
    obtain ⟨first, rest⟩ := List.forall_mem_cons.1 h
    simp only [List.mapM_cons, run_bind, run_pure, first, ih rest, List.map_cons]

theorem run_deeper {x : PrinterM α} {a : α} {depth : Nat} {i : Int}
    (h : x.run (i + (depth + 1 : Nat)) = (a, i + (depth + 1 : Nat))) :
    (deeper x).run (i + depth) = (a, i + depth) := by
  have inside : x.run (i + depth + 1) = (a, i + depth + 1) := by
    simpa [add_assoc] using h
  have around : (deeper x).run (i + depth) =
    ((x.run (i + depth + 1)).1, (x.run (i + depth + 1)).2 - 1) := rfl
  rw [around, inside, add_sub_cancel_right]

end Printer

/-! ## lines from printers -/

/-- Whatever the indentation of the tree, the printer gives these lines of it, and ends at the depth
where it began. -/
structure Prints (width : Int) (depth : Nat) (x : PrinterM String) (ls : List Line) : Prop where
  some : ls ≠ []
  run : ∀ i : Int, x.run (i + depth) = (renderAll width i ls, i + depth)

/-- The texts that the printer gives make up these lines. -/
def PrintsAll (width : Int) (depth : Nat) (xs : PrinterM (List String)) (ls : List Line) : Prop :=
  ∃ parts : List (List Line), parts.flatten = ls ∧ (∀ ks ∈ parts, ks ≠ []) ∧
    ∀ i : Int, xs.run (i + depth) = (parts.map (renderAll width i), i + depth)

variable {width : Int} {depth : Nat} {α : Type} {x y : PrinterM String}
  {xs ys : PrinterM (List String)} {ls ks : List Line}

namespace Prints

theorem indented (width : Int) (depth : Nat) (text : String) :
    Prints width depth (indented width text) [⟨depth, text⟩] where
  some := by simp
  run i := by
    rw [renderAll_singleton]
    rfl

/-- A printer that gives the same everywhere may go before. -/
theorem after {c : PrinterM α} {a : α} {f : α → PrinterM String} (same : ∀ i, c.run i = (a, i))
    (h : Prints width depth (f a) ls) : Prints width depth (c >>= f) ls where
  some := h.some
  run i := by rw [run_bind, same, h.run]

theorem nested {s : Stmt} (h : Prints width (s.depthUnder depth) x ls) :
    Prints width depth (s.nested x) ls where
  some := h.some
  run i := by
    cases s with
    | block => exact h.run i
    | _ => exact run_deeper (h.run i)

/-- At the top of a tree the printer stands at its indentation. -/
theorem run_top (h : Prints width 0 x ls) (i : Int) : x.run i = (renderAll width i ls, i) := by
  simpa using h.run i

end Prints

namespace PrintsAll

theorem nil (width : Int) (depth : Nat) : PrintsAll width depth (return []) [] :=
  ⟨[], rfl, by simp, fun _ => rfl⟩

theorem cons (h : Prints width depth x ls) (rest : PrintsAll width depth xs ks) :
    PrintsAll width depth (do return (← x) :: (← xs)) (ls ++ ks) := by
  obtain ⟨parts, rfl, some, run⟩ := rest
  refine ⟨ls :: parts, rfl, List.forall_mem_cons.2 ⟨h.some, some⟩, fun i => ?_⟩
  simp only [run_bind, run_pure, h.run i, run i, List.map_cons]

theorem one (h : Prints width depth x ls) : PrintsAll width depth (do return [← x]) ls := by
  have all := cons h (nil width depth)
  rwa [List.append_nil] at all

theorem two (h : Prints width depth x ls) (h' : Prints width depth y ks) :
    PrintsAll width depth (do return [← x, ← y]) (ls ++ ks) :=
  cons h (one h')

theorem append (h : PrintsAll width depth xs ls) (h' : PrintsAll width depth ys ks) :
    PrintsAll width depth (do return (← xs) ++ (← ys)) (ls ++ ks) := by
  obtain ⟨parts, rfl, some, run⟩ := h
  obtain ⟨parts', rfl, some', run'⟩ := h'
  refine ⟨parts ++ parts', by simp, List.forall_mem_append.2 ⟨some, some'⟩, fun i => ?_⟩
  simp only [run_bind, run_pure, run i, run' i, List.map_append]

theorem deeper (h : PrintsAll width (depth + 1) xs ls) :
    PrintsAll width depth (deeper xs) ls := by
  obtain ⟨parts, all, some, run⟩ := h
  exact ⟨parts, all, some, fun i => run_deeper (run i)⟩

theorem mapM {g : α → PrinterM String} {lines : α → List Line} {as : List α}
    (h : ∀ a ∈ as, Prints width depth (g a) (lines a)) :
    PrintsAll width depth (as.mapM g) (as.flatMap lines) := by
  induction as with
  | nil => exact nil width depth
  | cons a as ih =>
    obtain ⟨first, rest⟩ := List.forall_mem_cons.1 h
    rw [List.mapM_cons]
    exact cons first (ih rest)

/-- The texts are joined to one. -/
theorem joined (h : PrintsAll width depth xs ls) (some : ls ≠ []) :
    Prints width depth (do return "\n".intercalate (← xs)) ls where
  some := some
  run i := by
    obtain ⟨parts, rfl, each, run⟩ := h
    simp only [run_bind, run_pure, run i, renderAll_flatten width i parts each]

/-- The line is made last, and stands first. -/
theorem branch {caption : String} (h : PrintsAll dumpWidth (depth + 1) xs ls) :
    Prints dumpWidth depth (branch caption xs) (⟨depth, caption⟩ :: ls) where
  some := by simp
  run i := by
    obtain ⟨parts, rfl, each, run⟩ := h
    have joined := renderAll_flatten dumpWidth i ([⟨depth, caption⟩] :: parts)
      (List.forall_mem_cons.2 ⟨by simp, each⟩)
    simp only [Printer.branch, run_bind, run_pure, run_deeper (run i),
      (Prints.indented dumpWidth depth caption).run i]
    exact congrArg (·, _) joined

/-- Between two lines the texts stand one step further in. -/
theorem enclosed (h : PrintsAll width (depth + 1) xs ls) (first last : String) :
    Prints width depth
      (do
        let opening ← indented width first
        let texts ← Printer.deeper xs
        let closing ← indented width last
        return "\n".intercalate (opening :: texts ++ [closing]))
      (⟨depth, first⟩ :: ls ++ [⟨depth, last⟩]) :=
  joined (cons (.indented width depth first) (h.deeper.append (one (.indented width depth last))))
    (by simp)

end PrintsAll

/-- A statement stands under its head. -/
theorem Prints.under {s : Stmt} (h : Prints width (s.depthUnder depth) x ls) (head : String) :
    Prints width depth
      (do
        let first ← Printer.indented width head
        let text ← s.nested x
        return "\n".intercalate [first, text])
      (⟨depth, head⟩ :: ls) :=
  PrintsAll.joined (.two (.indented width depth head) h.nested) (by simp)

/-! ## dumps -/

mutual

theorem Expr.prints_dump (depth : Nat) (e : Expr) :
    Prints dumpWidth depth e.printDump (e.dump depth) := by
  match e with
  | .constant .. | .var _ | .new .. => exact .indented _ _ _
  | .assign _ _ _ operand | .cast _ _ operand | .unary _ _ operand =>
    exact (PrintsAll.one (Expr.prints_dump (depth + 1) operand)).branch
  | .call _ _ _ _ arguments => exact (Expr.prints_dumps (depth + 1) arguments).branch
  | .binary _ _ left right =>
    have former := Expr.prints_dump (depth + 1) left
    have latter := Expr.prints_dump (depth + 1) right
    exact (PrintsAll.two former latter).branch

theorem Expr.prints_dumps (depth : Nat) (es : List Expr) :
    PrintsAll dumpWidth depth (Expr.printDumps es) (Expr.dumpAll depth es) := by
  match es with
  | [] => exact .nil _ _
  | e :: es => exact .cons (Expr.prints_dump depth e) (Expr.prints_dumps depth es)

end

theorem Expr.prints_dumpOr (depth : Nat) (e : Option Expr) :
    PrintsAll dumpWidth depth (Expr.printDumpOr e) (Expr.dumpOr depth e) := by
  cases e with
  | none => exact .nil _ _
  | some e => exact .one (Expr.prints_dump depth e)

mutual

theorem Stmt.prints_dump (depth : Nat) (s : Stmt) :
    Prints dumpWidth depth s.printDump (s.dump depth) := by
  match s with
  | .block _ _ body => exact (Stmt.prints_dumps (depth + 1) body).branch
  | .declare _ _ init => exact (PrintsAll.one (Expr.prints_dump (depth + 1) init)).branch
  | .expr _ e => exact Expr.prints_dump depth e
  | .ifThen _ condition body | .while _ condition body =>
    have former := Expr.prints_dump (depth + 1) condition
    have latter := Stmt.prints_dump (depth + 1) body
    exact (PrintsAll.two former latter).branch
  | .ifElse _ condition consequent alternative =>
    have first := Expr.prints_dump (depth + 1) condition
    have second := Stmt.prints_dump (depth + 1) consequent
    have third := Stmt.prints_dump (depth + 1) alternative
    exact ((PrintsAll.two first second).append (.one third)).branch
  | .for _ init condition update body =>
    have first := Expr.prints_dumpOr (depth + 1) init
    have second := Expr.prints_dumpOr (depth + 1) condition
    have third := Expr.prints_dumpOr (depth + 1) update
    have last := Stmt.prints_dump (depth + 1) body
    exact (((first.append second).append third).append (.one last)).branch
  | .break _ => exact .indented _ _ _
  | .return _ value => exact (Expr.prints_dumpOr (depth + 1) value).branch

theorem Stmt.prints_dumps (depth : Nat) (ss : List Stmt) :
    PrintsAll dumpWidth depth (Stmt.printDumps ss) (Stmt.dumpAll depth ss) := by
  match ss with
  | [] => exact .nil _ _
  | s :: ss => exact .cons (Stmt.prints_dump depth s) (Stmt.prints_dumps depth ss)

end

theorem Formal.prints_dump (depth : Nat) (f : Formal) :
    Prints dumpWidth depth f.printDump (f.dump depth) :=
  .indented _ _ _

theorem Member.prints_dump (depth : Nat) (m : Member) :
    Prints dumpWidth depth m.printDump (m.dump depth) := by
  cases m with
  | field _ _ _ init => exact (Expr.prints_dumpOr (depth + 1) init).branch
  | method _ _ _ _ _ _ body => exact (Stmt.prints_dumps (depth + 1) body).branch

theorem ClassDecl.prints_dump (depth : Nat) (c : ClassDecl) :
    Prints dumpWidth depth c.printDump (c.dump depth) :=
  (PrintsAll.mapM fun m _ => m.prints_dump (depth + 1)).branch

theorem Program.prints_dump (depth : Nat) (p : Program) :
    Prints dumpWidth depth p.printDump (p.dump depth) :=
  (PrintsAll.mapM fun c _ => c.prints_dump (depth + 1)).branch

mutual

theorem Node.prints_dump (depth : Nat) (n : Node) :
    Prints dumpWidth depth n.printDump (n.dump depth) := by
  match n with
  | .program p => simpa only [printDump, dump] using p.prints_dump depth
  | .classDecl c => simpa only [printDump, dump] using c.prints_dump depth
  | .member m => simpa only [printDump, dump] using m.prints_dump depth
  | .formal f => simpa only [printDump, dump] using f.prints_dump depth
  | .stmt s => simpa only [printDump, dump] using s.prints_dump depth
  | .expr e => simpa only [printDump, dump] using e.prints_dump depth
  | .list kind _ elements =>
    simpa only [printDump, dump] using (Node.prints_dumps (depth + 1) elements).branch

theorem Node.prints_dumps (depth : Nat) (ns : List Node) :
    PrintsAll dumpWidth depth (Node.printDumps ns) (Node.dumpAll depth ns) := by
  match ns with
  | [] => simpa only [printDumps, dumpAll] using .nil _ _
  | n :: ns =>
    simpa only [printDumps, dumpAll] using
      .cons (Node.prints_dump depth n) (Node.prints_dumps depth ns)

end

/-- The printer gives the dump of every node at the indentation where it is. -/
theorem Node.run_printDump (n : Node) (i : Int) : n.printDump.run i = (n.dumpText i, i) :=
  (n.prints_dump 0).run_top i

/-! ## source -/

theorem Expr.sources_eq (es : List Expr) :
    Expr.sources es = ", ".intercalate (es.map Expr.source) := by
  induction es with
  | nil => rfl
  | cons e es ih =>
    cases es with
    | nil => simp [sources]
    | cons => simp only [sources, ih, List.map_cons, String.intercalate_cons_cons]

mutual

/-- The text of an expression is the same at every indentation. -/
theorem Expr.run_printSource (e : Expr) (i : Int) : e.printSource.run i = (e.source, i) := by
  match e with
  | .constant .. | .var _ | .new .. => rfl
  | .assign _ _ _ operand | .cast _ _ operand =>
    simp only [printSource, source, run_bind, run_pure, Expr.run_printSource operand]
  | .call _ _ _ _ arguments =>
    simp only [printSource, source, run_bind, run_pure, Expr.run_printSources arguments,
      Expr.sources_eq]
  | .binary _ _ left right =>
    simp only [printSource, source, run_bind, run_pure, Expr.run_printSource left,
      Expr.run_printSource right]
  | .unary _ op operand =>
    simp only [printSource, source, run_bind, Expr.run_printSource operand]
    cases op.side <;> rfl

theorem Expr.run_printSources (es : List Expr) (i : Int) :
    (Expr.printSources es).run i = (es.map Expr.source, i) := by
  match es with
  | [] => rfl
  | e :: es =>
    simp only [printSources, run_bind, run_pure, Expr.run_printSource e, Expr.run_printSources es,
      List.map_cons]

end

theorem Expr.run_printSourceOr (e : Option Expr) (i : Int) :
    (Expr.printSourceOr e).run i = (Expr.sourceOr e, i) := by
  cases e with
  | none => rfl
  | some e => exact e.run_printSource i

mutual

theorem Stmt.prints_source (width : Int) (depth : Nat) (s : Stmt) :
    Prints width depth (s.printSource width) (s.lines depth) := by
  match s with
  | .block _ _ body =>
    rw [printSource, lines]
    exact (Stmt.prints_sources width (depth + 1) body).enclosed _ _
  | .declare _ _ e | .expr _ e | .return _ (some e) =>
    rw [printSource, lines]
    exact .after e.run_printSource (.indented _ _ _)
  | .ifThen _ condition body | .while _ condition body =>
    rw [printSource, lines]
    exact .after condition.run_printSource ((Stmt.prints_source width _ body).under _)
  | .ifElse _ condition consequent alternative =>
    have former := PrintsAll.two
      (.indented width depth ("if (" ++ condition.source ++ ")"))
      ((Stmt.prints_source width (consequent.depthUnder depth) consequent).nested)
    have latter := PrintsAll.two (.indented width depth "else")
      ((Stmt.prints_source width (alternative.depthUnder depth) alternative).nested)
    rw [printSource, lines]
    exact .after condition.run_printSource ((former.append latter).joined (by simp))
  | .for _ init condition update body =>
    rw [printSource, lines]
    exact .after (Expr.run_printSourceOr init) (.after (Expr.run_printSourceOr condition)
      (.after (Expr.run_printSourceOr update) ((Stmt.prints_source width _ body).under _)))
  | .break _ | .return _ none =>
    rw [printSource, lines]
    exact .indented _ _ _

theorem Stmt.prints_sources (width : Int) (depth : Nat) (ss : List Stmt) :
    PrintsAll width depth (Stmt.printSources width ss) (Stmt.linesAll depth ss) := by
  match ss with
  | [] => exact .nil _ _
  | s :: ss => exact .cons (Stmt.prints_source width depth s) (Stmt.prints_sources width depth ss)

end

theorem Member.prints_source (width : Int) (depth : Nat) (m : Member) :
    Prints width depth (m.printSource width) (m.lines depth) := by
  cases m with
  | field _ type name init =>
    cases init with
    | none => exact .indented _ _ _
    | some e => exact .after e.run_printSource (.indented _ _ _)
  | method _ type name _ formals _ body =>
    exact .after (run_mapM formals fun _ _ _ => rfl)
      ((Stmt.prints_sources width (depth + 1) body).enclosed _ _)

/-- A class is joined of texts at different indentations. -/
theorem ClassDecl.run_printSource (width i : Int) (c : ClassDecl) :
    (c.printSource width).run i = (c.source width i, i) := by
  have members : PrintsAll width 0 (deeper (c.members.mapM (Member.printSource width)))
      (c.members.flatMap (Member.lines 1)) :=
    (PrintsAll.mapM fun m _ => m.prints_source width 1).deeper
  obtain ⟨parts, all, each, run⟩ := members
  have run : (deeper (c.members.mapM (Member.printSource width))).run i =
      (parts.map (renderAll width i), i) := by
    simpa using run i
  have each : ∀ texts ∈ parts.map (List.map (render width i)), texts ≠ [] :=
    List.forall_mem_map.2 fun ls hls => by simpa using each ls hls
  simp only [printSource, source, run_bind, run_pure, run, ← all, List.map_flatten]
  rw [← intercalate_between _ _ _ each, List.map_map]
  rfl

theorem Program.run_printSource (width i : Int) (p : Program) :
    (p.printSource width).run i = (p.source width i, i) := by
  have classes := run_mapM p.classes (fun c _ i => c.run_printSource width i) i
  simp only [printSource, source, run_bind, run_pure, classes]

mutual

/-- The printer gives the source of every node at the indentation where it is, and goes through a
list without a text. -/
theorem Node.run_printSource (width i : Int) (n : Node) :
    (n.printSource width).run i = (n.source? width i, i) := by
  match n with
  | .program p => simp only [printSource, source?, run_bind, run_pure, p.run_printSource]
  | .classDecl c => simp only [printSource, source?, run_bind, run_pure, c.run_printSource]
  | .member m =>
    simp only [printSource, source?, run_bind, run_pure, (m.prints_source width 0).run_top]
  | .formal f => simp only [printSource, source?]; rfl
  | .stmt s =>
    simp only [printSource, source?, run_bind, run_pure, (s.prints_source width 0).run_top]
  | .expr e => simp only [printSource, source?, run_bind, run_pure, e.run_printSource]
  | .list _ _ elements =>
    simp only [printSource, source?, run_bind, run_pure, Node.run_passSources width i elements]

theorem Node.run_passSources (width i : Int) (ns : List Node) :
    (Node.passSources width ns).run i = ((), i) := by
  match ns with
  | [] => simp only [passSources, run_pure]
  | n :: ns =>
    simp only [passSources, run_bind, Node.run_printSource width i n,
      Node.run_passSources width i ns]

end

end BantamSyntax
