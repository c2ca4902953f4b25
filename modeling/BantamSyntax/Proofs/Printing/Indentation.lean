import BantamSyntax.Proofs.Trees.DumpLines

/-!
# Indentation

A printer that begins further in gives the same lines further in. It keeps nothing of the nodes that
it has printed, so that each prints as from a new printer.
-/
namespace BantamSyntax

open Printer

/-- One printer gives for nodes one after the other what a new one gives for each, and ends at the
indentation where it began. -/
def Restores {α : Type} (print : Node → PrinterM α) : Prop :=
  ∀ (ns : List Node) (i : Int),
    (ns.mapM print).run i = (ns.map fun n => ((print n).run i).1, i)

/-- With that width of a step the node is printed as the same lines, further in by the steps of the
indentation. -/
def Node.SourceShifts (width : Int) (n : Node) : Prop :=
  ∃ source, ((n.printSource width).run 0).1 = some source ∧ ∀ k : Nat,
    ((n.printSource width).run k).1 = some (shifted (Line.blanks (width * k)) source)

namespace Node

variable {n : Node} {file : String} {depth : Nat} {width : Int}

theorem restores_printDump : Restores printDump := by
  intro ns i
  rw [run_mapM ns (fun n _ i => n.run_printDump i)]
  simp only [run_printDump]

theorem restores_printSource (width : Int) : Restores (printSource width) := by
  intro ns i
  rw [run_mapM ns (fun n _ i => n.run_printSource width i)]
  simp only [run_printSource]

/-! ## dumps further in -/

theorem dumpAll_eq (depth : Nat) (ns : List Node) :
    Node.dumpAll depth ns = ns.flatMap (dump depth) := by
  induction ns with
  | nil => simp [dumpAll]
  | cons n ns ih => simp [dumpAll, ih]

theorem Sound.oneLine_dump (h : n.Sound file) {l : Line} (hl : l ∈ n.dump depth) :
    OneLine l.text := by
  induction n using Node.children_induction generalizing depth with
  | node n ih =>
    cases n with
    | list kind line elements =>
      rw [dump, dumpAll_eq] at hl
      rcases List.mem_cons.1 hl with rfl | hl
      · exact kind.oneLine_className
      · obtain ⟨c, hc, hl⟩ := List.mem_flatMap.1 hl
        have child : c ∈ (Node.list kind line elements).children := hc
        exact ih c child (h.child child) hl
    | formal =>
      cases h with
      | formal valid =>
        rw [dump] at hl
        cases List.mem_singleton.1 hl
        exact Formal.oneLine_caption valid
    | _ => exact h.oneLine_shown (by simpa only [shown] using hl)

theorem Sound.dump_shift (h : n.Sound file) (k : Nat) :
    n.dumpText k = shifted (Line.blanks (dumpWidth * k)) n.dumpText :=
  Line.renderAll_shift (by decide) (n.prints_dump 0).some fun l hl => h.oneLine_dump hl

/-! ## source further in -/

theorem sourceShifts_of_prints {ls : List Line} (nonneg : 0 ≤ width) (some : ls ≠ [])
    (oneLine : ∀ l ∈ ls, OneLine l.text)
    (source : ∀ i, n.source? width i = .some (Line.renderAll width i ls)) :
    n.SourceShifts width := by
  refine ⟨Line.renderAll width 0 ls, ?_, fun k => ?_⟩
  · rw [run_printSource, source]
  · rw [run_printSource, source, Line.renderAll_shift nonneg some oneLine]

theorem Sound.stmt_shifts {s : Stmt} (h : (Node.stmt s).Sound file) (nonneg : 0 ≤ width) :
    (Node.stmt s).SourceShifts width := by
  cases h with
  | stmt valid =>
    exact sourceShifts_of_prints nonneg (s.prints_source width 0).some
      (fun l hl => Stmt.oneLine valid hl) fun _ => rfl

theorem Sound.member_shifts {m : Member} (h : (Node.member m).Sound file) (nonneg : 0 ≤ width) :
    (Node.member m).SourceShifts width := by
  cases h with
  | member valid =>
    exact sourceShifts_of_prints nonneg (m.prints_source width 0).some
      (fun l hl => Member.oneLine valid hl) fun _ => rfl

/--
Both printers keep nothing of what they print. Wherever a node stands in the tree of a text, its
dump begun further in has just more blanks before every line, and so has the source of a statement
or a member; the source of an expression is the same.
-/
theorem printers_shift {text name : String} {p : Program} {q : Parser}
    (parsed : (Source.ofText text name).parse = .ok p q) :
    Restores printDump ∧ (∀ width, Restores (printSource width)) ∧
      ∀ address n, (Node.program p).at? address = some n →
        (∀ k : Nat, (n.printDump.run k).1 =
          shifted (Line.blanks (2 * k)) (n.printDump.run 0).1) ∧
        (∀ width, 0 ≤ width → (∃ s, n = .stmt s) ∨ (∃ m, n = .member m) → n.SourceShifts width) ∧
        ∀ width e, n = .expr e → ∃ source, ∀ i, ((n.printSource width).run i).1 = some source := by
  refine ⟨restores_printDump, restores_printSource, fun address n here => ⟨fun k => ?_, ?_, ?_⟩⟩
  · have sound := (Grammar.sound_of_parse parsed).at here
    rw [run_printDump, run_printDump]
    exact sound.dump_shift k
  · have sound := (Grammar.sound_of_parse parsed).at here
    rintro width nonneg (⟨s, rfl⟩ | ⟨m, rfl⟩)
    · exact sound.stmt_shifts nonneg
    · exact sound.member_shifts nonneg
  · rintro width e rfl
    exact ⟨e.source, fun i => by rw [run_printSource]; rfl⟩

/-- A branch that is a block stands where its head is, and what is in it one step further in. -/
theorem printers_shift_block :
    let text := "class A \x7b int f() \x7b if (x) \x7b return y; \x7d else z++; \x7d \x7d"
    ∃ p q n, (Source.ofText text).parse = .ok p q ∧
      (Node.program p).at? [0, 0, 0, 0, 1, 0] = some n ∧
      ((n.printSource 2).run 0).1 =
        some "if (x)\n\x7b\n  return y;\n\x7d\nelse\n  (z++);" ∧
      ((n.printSource 2).run 1).1 =
        some "  if (x)\n  \x7b\n    return y;\n  \x7d\n  else\n    (z++);" ∧
      (n.printDump.run 1).1 = shifted "  " (n.printDump.run 0).1 := by
  intro text
  have reached : (parseText text).toOption.map (fun p =>
      ((Node.program p).at? [0, 0, 0, 0, 1, 0]).map fun n =>
        (((n.printSource 2).run 0).1, n matches .stmt _)) =
      some (some (some "if (x)\n\x7b\n  return y;\n\x7d\nelse\n  (z++);", true)) := by
    decide +kernel
  cases parsed : parseText text with
  | error => rw [parsed] at reached; cases reached
  | ok p =>
    obtain ⟨q, hq, -⟩ := Grammar.parse_of_parseText parsed
    rw [parsed] at reached
    obtain ⟨n, here, eq⟩ := Option.map_eq_some_iff.1 (Option.some.inj reached)
    obtain ⟨printed, isStmt⟩ := Prod.mk.inj eq
    obtain ⟨-, -, places⟩ := printers_shift hq
    obtain ⟨dumped, shifts, -⟩ := places _ n here
    have sort : ∃ s, n = .stmt s := by
      cases n with
      | stmt s => exact ⟨s, rfl⟩
      | _ => cases isStmt
    obtain ⟨source, first, further⟩ := shifts 2 (by decide) (.inl sort)
    cases printed.symm.trans first
    refine ⟨p, q, n, hq, here, printed, (further 1).trans ?_, dumped 1⟩
    decide +kernel

end Node
end BantamSyntax
