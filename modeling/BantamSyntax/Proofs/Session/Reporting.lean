import BantamSyntax.Proofs.Parsing.Requests
import BantamSyntax.Proofs.Scanning.Faults
import BantamSyntax.Proofs.Scanning.Interruptions
import BantamSyntax.Session

/-!
# Reports of scanners

What scanners report to a session. A request that fails reports nothing, and the tokens of a text
come with one diagnostic for each that is an error, in order, after those that were there.
-/
namespace BantamSyntax
namespace Session

variable {α β : Type} {s t : Session} {k : Nat} {e : SessionFailure}

/-! ## actions that report nothing -/

/-- Whatever the action comes to, the diagnostics stay. -/
def Silent (x : SessionM α) : Prop :=
  ∀ s, (stateOf (x s)).diagnostics = s.diagnostics

theorem silent_pure (a : α) : Silent (pure a) :=
  fun _ => rfl

theorem silent_throw (e : SessionFailure) : Silent (throw e : SessionM α) :=
  fun _ => rfl

theorem silent_get : Silent (get : SessionM Session) :=
  fun _ => rfl

theorem silent_modify {f : Session → Session} (h : ∀ s, (f s).diagnostics = s.diagnostics) :
    Silent (modify f) :=
  h

theorem Silent.bind {x : SessionM α} {f : α → SessionM β} (hx : Silent x)
    (hf : ∀ a, Silent (f a)) : Silent (x >>= f) :=
  fun s => stateOf_bind (R := fun s t : Session => t.diagnostics = s.diagnostics)
    (fun first rest => rest.trans first) (hx s) hf

theorem silent_source (i : Nat) : Silent (source i) := by
  refine silent_get.bind fun s => ?_
  split
  · exact silent_pure _
  · exact silent_throw _

theorem silent_shared (k : Nat) : Silent (shared k) := by
  refine silent_get.bind fun s => ?_
  split
  · exact silent_pure _
  · exact silent_throw _

theorem silent_scanner (k : Nat) : Silent (scanner k) :=
  (silent_shared k).bind fun _ => (silent_source _).bind fun _ => silent_pure _

theorem silent_setScanner (k : Nat) (c : Scanner) : Silent (setScanner k c) :=
  (silent_shared k).bind fun _ => (silent_modify fun _ => rfl).bind fun _ =>
    silent_modify fun _ => rfl

theorem silent_onScanner (k : Nat) (x : ScannerM α) : Silent (onScanner k x) := by
  refine (silent_scanner k).bind fun c => ?_
  split
  · exact (silent_setScanner k _).bind fun _ => silent_pure _
  · exact (silent_setScanner k _).bind fun _ => silent_throw _

/-! ## single requests -/

theorem diagnostics_of_report_error {ls : List Lexeme} (h : report k ls s = .error e t) :
    t.diagnostics = s.diagnostics := by
  rcases bind_eq_error.1 h with h | ⟨c, u, -, h⟩
  · simpa [h] using silent_scanner k s
  · exact absurd h modifyGet_ne_error

theorem diagnostics_of_scan_error (h : scan k s = .error e t) : t.diagnostics = s.diagnostics := by
  have requested := silent_onScanner k Scanner.scan s
  rcases bind_eq_error.1 h with h | ⟨l, u, hl, h⟩
  · simpa [h] using requested
  · rw [hl] at requested
    rcases bind_eq_error.1 h with h | ⟨_, _, _, h⟩
    · exact (diagnostics_of_report_error h).trans requested
    · exact absurd h pure_ne_error

open Scanner in
/-- Requests over a source any of whose reads may fail. The characters that the source has given,
after the blank that a scanner begins with, are those that each request has taken for its own, in
order, and the one that is still looked at. So the spellings of the tokens returned are among them.
Lines never decrease, and a request that fails reports nothing. -/
theorem requests_interrupted (source : Source) (n : Nat) :
    (∃ calls takes, ((ofSource source).after n).source = source.skip calls ∧
      List.Forall₂ Takes ((ofSource source).requests n) takes ∧
      ' ' :: source.handed calls =
        takes.flatten ++ ((ofSource source).after n).lookahead.toList ∧
      (spelled ((ofSource source).requests n)).Sublist (source.handed calls)) ∧
    (returned ((ofSource source).requests n)).Pairwise (·.line ≤ ·.line) ∧
    ∀ (session left : Session) (k : Nat) (e : SessionFailure),
      session.scan k = .error e left → left.diagnostics = session.diagnostics := by
  obtain ⟨takes, ⟨⟨calls, left, given⟩, -⟩, all⟩ := requests_take n (ofSource source)
  have given : ' ' :: source.handed calls =
    takes.flatten ++ ((ofSource source).after n).lookahead.toList := given
  refine ⟨⟨calls, takes, left, all, given, ?_⟩, (requests_lines n _).2, ?_⟩
  · have among : (spelled ((ofSource source).requests n)).Sublist (' ' :: source.handed calls) := by
      rw [given]
      exact (spelled_sublist all).trans (List.sublist_append_left _ _)
    rcases List.sublist_cons_iff.1 among with among | ⟨rest, eq, -⟩
    · exact among
    -- The first blank is no part of a spelling, since none begins with a blank.
    · have blank := start_of_spelled all ' ' (by rw [eq]; rfl)
      cases blank
  · intro session left k e h
    exact diagnostics_of_scan_error h

/-! ## all tokens -/

/-- The scanner under the index `k`, put together from its two parts. -/
structure Has (s : Session) (k : Nat) (c : Scanner) : Prop where
  parts : ∃ h, s.scanners[k]? = some h ∧ s.sources[h.source]? = some c.source ∧
    h.lookahead = c.lookahead

variable {c d : Scanner}

theorem scanner_eq (h : s.Has k c) : scanner k s = .ok c s := by
  obtain ⟨shared, hk, hs, look⟩ := h.parts
  refine bind_eq_ok.2 ⟨shared, s, bind_eq_ok.2 ⟨s, s, rfl, by rw [hk]; rfl⟩, ?_⟩
  refine bind_eq_ok.2 ⟨c.source, s, bind_eq_ok.2 ⟨s, s, rfl, by rw [hs]; rfl⟩, ?_⟩
  rw [look]
  rfl

/-- The session after the scanner `h` under the index `k` has become `d`. -/
def put (s : Session) (k : Nat) (h : SharedScanner) (d : Scanner) : Session :=
  { s with
    sources := s.sources.set h.source d.source
    scanners := s.scanners.set k { h with lookahead := d.lookahead } }

theorem setScanner_put {h : SharedScanner} (found : s.scanners[k]? = some h) (d : Scanner) :
    setScanner k d s = .ok () (s.put k h d) :=
  bind_eq_ok.2 ⟨h, s, bind_eq_ok.2 ⟨s, s, rfl, by rw [found]; rfl⟩, rfl⟩

/-- A scanner is there after its source and its lookahead have been put back. -/
theorem has_of_put {h : SharedScanner} {source : Source} (found : s.scanners[k]? = some h)
    (there : s.sources[h.source]? = some source)
    (sources : t.sources = s.sources.set h.source d.source)
    (scanners : t.scanners = s.scanners.set k { h with lookahead := d.lookahead }) : t.Has k d := by
  refine ⟨{ h with lookahead := d.lookahead }, ?_, ?_, rfl⟩
  · rw [scanners, List.getElem?_set_self (List.getElem?_eq_some_iff.1 found).1]
  · rw [sources, List.getElem?_set_self (List.getElem?_eq_some_iff.1 there).1]

theorem setScanner_eq (h : s.Has k c) (d : Scanner) : ∃ t, setScanner k d s = .ok () t ∧
    t.Has k d ∧ t.files = s.files ∧ t.diagnostics = s.diagnostics := by
  obtain ⟨shared, hk, hs, -⟩ := h.parts
  exact ⟨_, setScanner_put hk d, has_of_put hk hs rfl rfl, rfl, rfl⟩

theorem report_eq (h : s.Has k c) (ls : List Lexeme) : report k ls s = .ok ()
    { s with diagnostics := s.diagnostics ++ ls.filterMap (·.diagnostic? c.source.name) } :=
  (bind_of_ok (scanner_eq h)).trans rfl

/-- Whatever the source does, the faults of the lexemes that came of it are reported, after what had
been reported before. -/
theorem tokenize_eq (h : s.Has k c) :
    let found := c.tokenize.1
    ∃ t, t.files = s.files ∧
      t.diagnostics =
        s.diagnostics ++ found.lexemes.filterMap (·.diagnostic? c.source.name) ∧
      tokenize k s = match found.failure with
        | some cause => .error (.parse (.input cause)) t
        | none => .ok (found.lexemes.map (·.token)) t := by
  intro found
  obtain ⟨t, ht, has, files, diagnostics⟩ := setScanner_eq h c.tokenize.2
  have name : c.tokenize.2.source.name = c.source.name := by
    obtain ⟨_, ⟨⟨_, left, _⟩, _⟩, _⟩ := Scanner.requests_take _ c
    exact (congrArg Source.name left).trans (Source.name_skip _ _)
  have reported := report_eq has found.lexemes
  rw [name, diagnostics] at reported
  refine ⟨{ t with diagnostics := s.diagnostics ++
    found.lexemes.filterMap (·.diagnostic? c.source.name) }, files, rfl, ?_⟩
  refine (bind_of_ok (scanner_eq h)).trans ((bind_of_ok ht).trans ?_)
  refine (bind_of_ok reported).trans ?_
  change (match found.failure with
    | some cause => failInput cause
    | none => pure (found.lexemes.map (·.token)) : SessionM _) _ = _
  cases found.failure <;> rfl

/-- The tokens of a source, by a scanner made for it. -/
def tokenizeSource (s : Source) : SessionM (List Token) := do
  let i ← addSource s
  tokenize (← addScanner { source := i, owns := true })

theorem tokenizeSource_eq (source : Source) (s : Session) :
    let found := (Scanner.ofSource source).tokenize.1
    ∃ t, t.files = s.files ∧
      t.diagnostics = s.diagnostics ++ found.lexemes.filterMap (·.diagnostic? source.name) ∧
      tokenizeSource source s = match found.failure with
        | some cause => .error (.parse (.input cause)) t
        | none => .ok (found.lexemes.map (·.token)) t := by
  let made : Session := { s with
    sources := s.sources ++ [source]
    scanners := s.scanners ++ [{ source := s.sources.length, owns := true }] }
  have has : made.Has s.scanners.length (Scanner.ofSource source) :=
    ⟨_, List.getElem?_concat_length, List.getElem?_concat_length, rfl⟩
  exact tokenize_eq has

/-- The diagnostic is about the token, and says what its spelling tells. -/
structure Reported (file : String) (t : Token) (d : Diagnostic) : Prop where
  kind : d.kind = .lexical
  line : d.line = some t.line
  file : d.file = some file
  string : d.message ∈ ["unterminated string", "illegal escape character",
      "string larger than 5000 chars", "spanning multiple lines"] ↔
    t.spelling.toList.head? = some '"'
  comment : d.message = "unterminated block comment" ↔ ['/', '*'] <+: t.spelling.toList
  integer : d.message = "Integer too large" ↔ ∃ c ∈ t.spelling.toList.head?, c.isDigit = true
  operator : d.message = "bitwise logic not supported" ↔ t.spelling ∈ ["&", "|"]
  character : d.message = "illegal character" ↔ ¬(t.spelling.toList.head? = some '"' ∨
    ['/', '*'] <+: t.spelling.toList ∨ (∃ c ∈ t.spelling.toList.head?, c.isDigit = true) ∨
    t.spelling ∈ ["&", "|"])

open LexicalFault in
theorem reported_of_fits {f : LexicalFault} {t : Token} (file : String)
    (fits : f.Fits t.spelling.toList) :
    Reported file t ⟨.lexical, f.message, some t.line, some file⟩ := by
  have strings : f.message ∈ ["unterminated string", "illegal escape character",
      "string larger than 5000 chars", "spanning multiple lines"] ↔ f ∈ ofStrings := by
    cases f <;> decide
  have comment : f.message = "unterminated block comment" ↔ f = unterminatedComment :=
    message_inj (g := unterminatedComment)
  have integer : f.message = "Integer too large" ↔ f = largeInteger :=
    message_inj (g := largeInteger)
  have operator : f.message = "bitwise logic not supported" ↔ f = bitwiseOperator :=
    message_inj (g := bitwiseOperator)
  have character : f.message = "illegal character" ↔ f = illegalCharacter :=
    message_inj (g := illegalCharacter)
  have alone : t.spelling.toList = ['&'] ∨ t.spelling.toList = ['|'] ↔
      t.spelling ∈ ["&", "|"] := by
    simp [← String.toList_inj]
  refine ⟨rfl, rfl, rfl, strings.trans fits.string, comment.trans fits.comment,
    integer.trans fits.integer, operator.trans (fits.operator.trans alone), ?_⟩
  rw [← fits.string, ← fits.comment, ← fits.integer, ← alone, ← fits.operator]
  refine character.trans (eq_illegalCharacter_iff.trans ?_)
  simp only [not_or, ne_eq]

theorem forall₂_reported {ls : List Lexeme} (file : String)
    (lexical : ∀ l ∈ ls, Scanner.Lexical l) :
    List.Forall₂ (Reported file) ((ls.map (·.token)).filter (·.kind = .error))
      (ls.filterMap (·.diagnostic? file)) := by
  induction ls with
  | nil => exact .nil
  | cons l ls ih =>
    obtain ⟨here, lexical⟩ := List.forall_mem_cons.1 lexical
    have rest := ih lexical
    cases hf : l.fault with
    | none =>
      have sound : l.token.kind ≠ .error := here.faulty_iff.not.1 (by simp [hf])
      rwa [List.map_cons, List.filter_cons_of_neg (by simpa using sound),
        List.filterMap_cons_none (Lexeme.diagnostic?_of_sound hf file)]
    | some f =>
      have error : l.token.kind = .error := here.faulty_iff.1 (by rw [hf]; rfl)
      rw [List.map_cons, List.filter_cons_of_pos (by simpa using error),
        List.filterMap_cons_some (Lexeme.diagnostic?_of_fault hf file)]
      exact .cons (reported_of_fits file (here.fits hf)) rest

/-- Tokens of a text leave what had been reported as it was. They add one diagnostic for each that
is an error, in order, at its line in the file, of the sort that its spelling tells. -/
theorem tokenize_reports (text name : String) (session : Session) :
    ∃ tokens left found,
      tokenizeSource (.ofText text name) session = .ok tokens left ∧
      left.diagnostics = session.diagnostics ++ found ∧
      List.Forall₂ (Reported name) (tokens.filter (·.kind = .error)) found := by
  have faces := Scanner.ofSource_faces (Source.ofText_gives text name)
  obtain ⟨left, -, reported, result⟩ := tokenizeSource_eq (.ofText text name) session
  rw [Scanner.tokenize_faces faces] at reported result
  exact ⟨_, left, _, result, reported, forall₂_reported name fun _ => Scanner.lexical_of_mem⟩

end Session
end BantamSyntax
