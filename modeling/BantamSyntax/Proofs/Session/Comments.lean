import BantamSyntax.Proofs.Scanning.Stopping
import BantamSyntax.Proofs.Session.Requests
import Mathlib.Order.Bounds.Basic

/-!
# Comments

Where a comment ends, and what a scanner that has given one goes on with.
-/
namespace BantamSyntax
namespace Scanner

/-! ## block comments -/

/-- Where a star and a slash may close the comment that `cs` begins with: the star of the opening is
no star of theirs. -/
def closings (cs : List Char) : Set Nat :=
  {n | 2 ≤ n ∧ ['*', '/'] <+: cs.drop n}

variable {previous : Char} {cs : List Char} {n : Nat}

theorem CommentState.step_body {c : Char} (stays : ¬(previous = '*' ∧ c = '/')) :
    step (.body (previous = '*')) c = some (.body (c = '*')) := by
  by_cases star : previous = '*'
  · have other : c ≠ '/' := fun slash => stays ⟨star, slash⟩
    simp [step, star, other]
  · simp [step, star]

/-- What is before the text tells where it closes at once: nowhere, or at the first character. -/
theorem closing_cons {c : Char} :
    ['*', '/'] <+: (previous :: c :: cs).drop 0 ↔ previous = '*' ∧ c = '/' := by
  simp [List.cons_prefix_cons, eq_comm]

/-- A run within a comment after the character `previous` ends with the slash of the first closing,
whose star may be that character. -/
theorem run_of_closing (here : ['*', '/'] <+: (previous :: cs).drop n)
    (first : ∀ m < n, ¬['*', '/'] <+: (previous :: cs).drop m) :
    run CommentState.step (.body (previous = '*')) cs =
      ((cs.take (n + 1), .closed), cs.drop (n + 1)) := by
  induction cs generalizing previous n with
  | nil =>
    have two := here.length_le
    simp only [List.length_drop, List.length_cons, List.length_nil] at two
    omega
  | cons c cs ih =>
    by_cases closes : previous = '*' ∧ c = '/'
    · obtain rfl : n = 0 := by
        by_contra later
        exact first 0 (Nat.pos_of_ne_zero later) (closing_cons.2 closes)
      obtain ⟨rfl, rfl⟩ := closes
      cases cs <;> rfl
    · cases n with
      | zero => exact absurd (closing_cons.1 here) closes
      | succ n =>
        have rest := ih here fun m less => first (m + 1) (Nat.succ_lt_succ less)
        simp only [run, CommentState.step_body closes, rest]
        rfl

theorem run_of_open (never : ∀ n, ¬['*', '/'] <+: (previous :: cs).drop n) :
    (run CommentState.step (.body (previous = '*')) cs).1.2 ≠ .closed := by
  induction cs generalizing previous with
  | nil => simp [run]
  | cons c cs ih =>
    have stays : ¬(previous = '*' ∧ c = '/') := fun closes => never 0 (closing_cons.2 closes)
    simp only [run, CommentState.step_body stays]
    exact ih fun n => never (n + 1)

/-- Within a comment that has just been opened there is no star before the text. -/
theorem closing_opened :
    ['*', '/'] <+: (' ' :: cs).drop n ↔ n + 1 ∈ closings ('/' :: '*' :: cs) := by
  cases n <;> simp [closings]

/-- The star after the slash is taken with it, so that a run begins with what is after both. -/
theorem cut_of_least (h : IsLeast (closings ('/' :: '*' :: cs)) n) :
    cut '/' ('*' :: cs) =
      ⟨.comment, ('/' :: '*' :: cs).take (n + 2), none, ('/' :: '*' :: cs).drop (n + 2)⟩ := by
  obtain ⟨here, least⟩ := h
  obtain ⟨m, rfl⟩ : ∃ m, n = m + 1 := ⟨n - 1, by have := here.1; omega⟩
  have ended := run_of_closing (closing_opened.2 here) fun k less among => by
    have := least (closing_opened.1 among)
    omega
  have fresh : CommentState.body false = .body (' ' = '*') := rfl
  rw [show cut '/' ('*' :: cs) = cutBlockComment ('*' :: cs) from rfl]
  simp only [cutBlockComment, List.tail_cons, fresh, ended]
  rfl

theorem cut_of_never (h : closings ('/' :: '*' :: cs) = ∅) :
    cut '/' ('*' :: cs) = ⟨.error, '/' :: '*' :: cs, some .unterminatedComment, []⟩ := by
  have ended : (run CommentState.step (.body false) cs).1.2 ≠ .closed :=
    @run_of_open ' ' cs fun n among => by
      have closing := closing_opened.1 among
      rw [h] at closing
      exact closing
  have all := run_append CommentState.step (.body false) cs
  have rest := run_rest_eq_nil CommentState.closed_of_step ended
  rw [rest, List.append_nil] at all
  rw [show cut '/' ('*' :: cs) = cutBlockComment ('*' :: cs) from rfl]
  simp only [cutBlockComment, List.tail_cons, if_neg ended, all, rest]

end Scanner

namespace Session

open Scanner

variable {s : Session} {k : Nat} {c : Scanner}

/-- The request after the next one gives the first token of `rest`, whose first character stands on
`line`. -/
def Continues (s : Session) (k : Nat) (rest : List Char) (line : Nat) : Prop :=
  ∃ t left l later, s.scan k = .ok t left ∧ left.scan k = .ok l.token later ∧
    (lexemesFrom line rest).head? = some l

theorem Scans.continues {t : Token} {reported : List Diagnostic} {rest : List Char} {line : Nat}
    (h : s.Scans k t reported rest line) : s.Continues k rest line := by
  obtain ⟨left, d, given, -, has, faces⟩ := h.given
  obtain ⟨l, e, ds, line', scanned, -, -, heads⟩ := scan_faces faces
  obtain ⟨later, next, -⟩ := scan_has has scanned
  refine ⟨t, left, l, later, given, next, ?_⟩
  rcases heads with ⟨-, eq, -⟩ | ⟨-, eq⟩ <;> rw [eq] <;> rfl

/-- A scanner before a comment takes all of it. A block comment ends with the first star and slash
that come after its opening, and one without them is an error that takes all of the text; a line
comment ends before the first newline. The next token is that of the rest, on the line that the
newlines in the comment lead to. A line end is one newline, however the source marks it. -/
theorem scan_comment {gap cs : List Char} {line : Nat} (has : s.Has k c)
    (faces : c.Faces (gap ++ cs) line) (blank : gap.all isBlank = true) :
    let start := line + newlines gap
    (['/', '*'] <+: cs →
      (∀ n, IsLeast (closings cs) n →
        let spelling := cs.take (n + 2)
        let after := start + newlines spelling
        s.Scans k ⟨.comment, String.ofList spelling, start⟩ [] (cs.drop (n + 2)) after ∧
          s.Continues k (cs.drop (n + 2)) after) ∧
      (closings cs = ∅ →
        s.Scans k ⟨.error, String.ofList cs, start⟩
          [⟨.lexical, "unterminated block comment", some start, some c.source.name⟩] []
          (start + newlines cs))) ∧
    (['/', '/'] <+: cs →
      let spelling := cs.takeWhile (· ≠ '\n')
      let rest := cs.dropWhile (· ≠ '\n')
      s.Scans k ⟨.comment, String.ofList spelling, start⟩ [] rest (start + newlines spelling) ∧
        s.Continues k rest (start + newlines spelling)) := by
  intro start
  constructor
  · rintro ⟨body, rfl⟩
    have faces : c.Faces (gap ++ '/' :: '*' :: body) line := faces
    have scans := scans_visible has faces blank (by decide)
    constructor
    · intro n least spelling after
      have least : IsLeast (closings ('/' :: '*' :: body)) n := least
      rw [cut_of_least least] at scans
      exact ⟨scans, scans.continues⟩
    · intro never
      have never : closings ('/' :: '*' :: body) = ∅ := never
      rw [cut_of_never never] at scans
      exact scans
  · rintro ⟨body, rfl⟩ spelling rest
    have faces : c.Faces (gap ++ '/' :: '/' :: body) line := faces
    have scans := scans_visible has faces blank (by decide)
    exact ⟨scans, scans.continues⟩

/-- The star of the opening closes nothing, a run of stars may, and what looks like another end of
the comment is not part of it. -/
theorem scan_comment_stars :
    let s : Session := {
      sources := [.ofText "/*/\r\n**/*/ y" "f"]
      scanners := [{ source := 0, owns := true }] }
    s.Scans 0 ⟨.comment, "/*/\n**/", 1⟩ [] ['*', '/', ' ', 'y'] 2 ∧
      s.Continues 0 ['*', '/', ' ', 'y'] 2 := by
  intro s
  let source : Source := .ofText "/*/\r\n**/*/ y" "f"
  have has : s.Has 0 (ofSource source) := ⟨_, rfl, rfl, rfl⟩
  have faces : (ofSource source).Faces
      ([' '] ++ ['/', '*', '/', '\n', '*', '*', '/', '*', '/', ' ', 'y']) 1 :=
    ofSource_faces (Source.ofText_gives "/*/\r\n**/*/ y" "f")
  have least : IsLeast
      (closings ['/', '*', '/', '\n', '*', '*', '/', '*', '/', ' ', 'y']) 5 := by
    refine ⟨⟨by decide, by decide⟩, fun m closing => ?_⟩
    by_contra less
    have before : ∀ m < 5, 2 ≤ m →
        ¬['*', '/'] <+: ['/', '*', '/', '\n', '*', '*', '/', '*', '/', ' ', 'y'].drop m := by
      decide
    exact before m (Nat.lt_of_not_le less) closing.1 closing.2
  exact ((scan_comment has faces rfl).1 ⟨_, rfl⟩).1 5 least

end Session
end BantamSyntax
