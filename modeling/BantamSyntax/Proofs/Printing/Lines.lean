import BantamSyntax.Proofs.Printing.LineEnds
import Mathlib.Tactic.Positivity
import Mathlib.Tactic.Ring

/-!
# Lines of text

The lines that a text has, and how rendered lines move with the indentation and when texts of
several lines are put together.
-/
namespace BantamSyntax

/-- What stands between the newlines of a text. -/
def textLines (s : String) : List String :=
  (s.toList.splitOn '\n').map String.ofList

/-- The text with `margin` put before every line. -/
def shifted (margin s : String) : String :=
  "\n".intercalate ((textLines s).map (margin ++ ·))

theorem textLines_intercalate {texts : List String} (some : texts ≠ [])
    (oneLine : ∀ s ∈ texts, OneLine s) : textLines ("\n".intercalate texts) = texts := by
  have apart : ∀ cs ∈ texts.map String.toList, '\n' ∉ cs :=
    List.forall_mem_map.2 fun s hs => (oneLine s hs).1
  have newline : "\n".toList = ['\n'] := rfl
  rw [textLines, String.toList_intercalate, newline,
    List.splitOn_intercalate '\n' apart (by simpa using some)]
  simp [Function.comp_def]

/-! ## joined texts -/

/-- Texts of several lines are joined as their lines are. -/
theorem intercalate_flatten (parts : List (List String)) (some : ∀ texts ∈ parts, texts ≠ []) :
    "\n".intercalate (parts.map "\n".intercalate) = "\n".intercalate parts.flatten := by
  induction parts with
  | nil => rfl
  | cons texts parts ih =>
    obtain ⟨first, rest⟩ := List.forall_mem_cons.1 some
    cases parts with
    | nil => simp
    | cons texts' parts =>
      have more : (texts' :: parts).flatten ≠ [] := by simp [rest]
      rw [List.flatten_cons, String.intercalate_append_of_ne_nil first more, ← ih rest]
      simp [String.intercalate_cons_cons, String.append_assoc]

theorem intercalate_between (first last : String) (parts : List (List String))
    (some : ∀ texts ∈ parts, texts ≠ []) :
    "\n".intercalate (first :: parts.map "\n".intercalate ++ [last]) =
      "\n".intercalate (first :: parts.flatten ++ [last]) := by
  have all : ∀ texts ∈ [first] :: parts ++ [[last]], texts ≠ [] :=
    List.forall_mem_append.2 ⟨List.forall_mem_cons.2 ⟨by simp, some⟩, by simp⟩
  simpa only [List.map_cons, List.map_append, List.map_nil, List.flatten_cons, List.flatten_append,
    List.flatten_nil, String.intercalate_singleton, List.append_nil, List.cons_append,
    List.nil_append] using intercalate_flatten _ all

/-! ## rendered lines -/

namespace Line

variable {width : Int} {ls : List Line}

theorem renderAll_flatten (width i : Int) (parts : List (List Line))
    (some : ∀ ls ∈ parts, ls ≠ []) :
    "\n".intercalate (parts.map (renderAll width i)) = renderAll width i parts.flatten := by
  have some : ∀ texts ∈ parts.map (List.map (render width i)), texts ≠ [] :=
    List.forall_mem_map.2 fun ls hls => by simpa using some ls hls
  rw [renderAll, List.map_flatten, ← intercalate_flatten _ some, List.map_map]
  rfl

@[simp] theorem renderAll_singleton (width i : Int) (l : Line) :
    renderAll width i [l] = l.render width i := by
  simp [renderAll]

theorem oneLine_render {l : Line} (h : OneLine l.text) (width i : Int) :
    OneLine (l.render width i) := by
  simp [OneLine, render, blanks, h]

theorem textLines_renderAll (some : ls ≠ []) (oneLine : ∀ l ∈ ls, OneLine l.text)
    (width i : Int) : textLines (renderAll width i ls) = ls.map (render width i) :=
  textLines_intercalate (by simpa using some)
    (List.forall_mem_map.2 fun l hl => oneLine_render (oneLine l hl) width i)

theorem blanks_add {m n : Int} (hm : 0 ≤ m) (hn : 0 ≤ n) :
    blanks (m + n) = blanks m ++ blanks n := by
  rw [blanks, Int.toNat_add hm hn, ← List.replicate_append_replicate, String.ofList_append]
  rfl

theorem render_shift {k : Nat} (nonneg : 0 ≤ width) (l : Line) :
    l.render width k = blanks (width * k) ++ l.render width 0 := by
  have split : ((k : Int) + l.depth) * width = width * k + (0 + l.depth) * width := by ring
  have former : 0 ≤ width * (k : Int) := by positivity
  have latter : 0 ≤ (0 + (l.depth : Int)) * width := by positivity
  rw [render, render, split, blanks_add former latter, String.append_assoc]

/-- An indentation that is not negative puts its blanks before every line. -/
theorem renderAll_shift {k : Nat} (nonneg : 0 ≤ width) (some : ls ≠ [])
    (oneLine : ∀ l ∈ ls, OneLine l.text) :
    renderAll width k ls = shifted (blanks (width * k)) (renderAll width 0 ls) := by
  rw [shifted, textLines_renderAll some oneLine, List.map_map, renderAll]
  exact congrArg _ (List.map_congr_left fun l _ => render_shift nonneg l)

end Line
end BantamSyntax
