import BantamSyntax.Proofs.Session.Reporting

/-!
# Requests of sessions

What one request for a token makes of a session: the token and what is reported about it, and where
in the text the scanner is left.
-/
namespace BantamSyntax
namespace Session

variable {s : Session} {k : Nat} {c d : Scanner} {l : Lexeme}

/-- A request of a scanner that is there moves it and its source on, and nothing else. -/
theorem scan_eq {h : SharedScanner} {source : Source} (found : s.scanners[k]? = some h)
    (there : s.sources[h.source]? = some source)
    (scanned : Scanner.scan ⟨source, h.lookahead⟩ = .ok l d) :
    scan k s = .ok l.token { s with
      sources := s.sources.set h.source d.source
      scanners := s.scanners.set k { h with lookahead := d.lookahead }
      diagnostics := s.diagnostics ++ (l.diagnostic? source.name).toList } := by
  have has : s.Has k ⟨source, h.lookahead⟩ := ⟨h, found, there, rfl⟩
  have asked : onScanner k Scanner.scan s = .ok l (s.put k h d) := by
    rw [onScanner, bind_of_ok (scanner_eq has), scanned]
    exact bind_of_ok (setScanner_put found d)
  have moved : (s.put k h d).Has k d := has_of_put found there rfl rfl
  have name : d.source.name = source.name := by
    obtain ⟨cs, ⟨n, after, -⟩, -⟩ := Scanner.proceeds_scan.ok scanned
    rw [after, Source.name_skip]
  have reported := report_eq moved [l]
  rw [name, List.filterMap_cons] at reported
  rw [scan, bind_of_ok asked, bind_of_ok reported]
  cases l.diagnostic? source.name <;> rfl

theorem scan_has (has : s.Has k c) (scanned : Scanner.scan c = .ok l d) :
    ∃ t, scan k s = .ok l.token t ∧ t.Has k d ∧
      t.diagnostics = s.diagnostics ++ (l.diagnostic? c.source.name).toList := by
  obtain ⟨h, found, there, look⟩ := has.parts
  have same : (⟨c.source, h.lookahead⟩ : Scanner) = c := by rw [look]
  exact ⟨_, scan_eq found there (same ▸ scanned), has_of_put found there rfl rfl, rfl⟩

/-- A request of the scanner `k` gives the token, reports this about it, and leaves the scanner
before the rest of its text. -/
structure Scans (s : Session) (k : Nat) (t : Token) (reported : List Diagnostic)
    (rest : List Char) (line : Nat) : Prop where
  given : ∃ left d, s.scan k = .ok t left ∧ left.diagnostics = s.diagnostics ++ reported ∧
    left.Has k d ∧ d.Faces rest line

open Scanner in
/-- The token is cut from where the white space is over. -/
theorem scans_visible {gap cs : List Char} {first : Char} {line : Nat} (has : s.Has k c)
    (faces : c.Faces (gap ++ first :: cs) line) (blank : gap.all isBlank = true)
    (visible : isBlank first = false) :
    let found := (cut first cs).lexeme ↑(line + newlines gap)
    s.Scans k found.token (found.diagnostic? c.source.name).toList (cut first cs).rest
      (line + newlines gap + newlines (cut first cs).spelling) := by
  obtain ⟨d, scanned, after⟩ := scan_visible faces blank visible
  obtain ⟨left, given, moved, reported⟩ := scan_has has scanned
  exact ⟨left, d, given, reported, moved, after⟩

end Session
end BantamSyntax
