import BantamSyntax.Proofs.Scanning.StringPieces
import BantamSyntax.Proofs.Session.Requests

/-!
# String constants

What a scanner makes of a text that goes on with a quote, and what it reports about it.
-/
namespace BantamSyntax
namespace Session

open Scanner StringPiece

variable {s : Session} {k : Nat} {c : Scanner}

/-- A scanner before a quote takes all up to the first quote that is not the second character of a
pair, quotes included; whether that is a string constant, and if not what is said about it at the
line of the opening quote, is read off its pieces. Without such a quote it takes all of the text.
A line end is one newline in it, however the source marks it. -/
theorem scan_string {gap cs : List Char} {line : Nat} (has : s.Has k c)
    (faces : c.Faces (gap ++ '"' :: cs) line) (blank : gap.all isBlank = true) :
    let start := line + newlines gap
    let diagnostic (message : String) : Diagnostic :=
      ⟨.lexical, message, some start, some c.source.name⟩
    (∀ ps rest, Closes ps cs rest →
      let spelling := '"' :: ps.flatMap chars ++ ['"']
      ∃ kind messages, Verdict ps spelling kind messages ∧
        s.Scans k ⟨kind, String.ofList spelling, start⟩ (messages.map diagnostic) rest
          (start + newlines spelling)) ∧
    ((¬∃ ps rest, Closes ps cs rest) →
      s.Scans k ⟨.error, String.ofList ('"' :: cs), start⟩ [diagnostic "unterminated string"] []
        (start + newlines ('"' :: cs))) := by
  intro start diagnostic
  have scans := scans_visible has faces blank (by decide)
  constructor
  · intro ps rest closes spelling
    obtain ⟨fault, cut, verdict⟩ := cut_of_closes closes
    rw [cut] at scans
    refine ⟨_, _, verdict, ?_⟩
    cases fault <;> exact scans
  · intro never
    have unclosed := (closes_or_open cs).resolve_left never
    rw [cut_of_open unclosed] at scans
    exact scans

/-- A backslash before a line end makes a pair with the newline that it comes as. -/
theorem scan_string_escaped_line_end :
    let s : Session := {
      sources := [.ofText "\"a\\\r\nb\" c" "f"]
      scanners := [{ source := 0, owns := true }] }
    s.Scans 0 ⟨.error, "\"a\\\nb\"", 1⟩
      [⟨.lexical, "illegal escape character", some 1, some "f"⟩] [' ', 'c'] 2 := by
  intro s
  let source : Source := .ofText "\"a\\\r\nb\" c" "f"
  have has : s.Has 0 (ofSource source) := ⟨_, rfl, rfl, rfl⟩
  have faces : (ofSource source).Faces ([' '] ++ '"' :: ['a', '\\', '\n', 'b', '"', ' ', 'c']) 1 :=
    ofSource_faces (Source.ofText_gives "\"a\\\r\nb\" c" "f")
  have closes : Closes [.plain 'a', .pair '\n', .plain 'b'] ['a', '\\', '\n', 'b', '"', ' ', 'c']
      [' ', 'c'] := ⟨by simp [IsProper], rfl⟩
  obtain ⟨kind, messages, verdict, scans⟩ := (scan_string has faces rfl).1 _ _ closes
  have illegal : ∃ p ∈ [.plain 'a', .pair '\n', .plain 'b'], ¬IsLegal p := by simp [IsLegal]
  have other : kind ≠ .string := fun accepted => by
    obtain ⟨p, hp, bad⟩ := illegal
    exact bad ((verdict.accepted.1 accepted).1 p hp)
  rw [verdict.escape illegal, verdict.rejected other] at scans
  exact scans

end Session
end BantamSyntax
