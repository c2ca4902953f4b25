import BantamSyntax.Proofs.Scanning.Reconstruction
import BantamSyntax.Proofs.Scanning.Stopping

/-!
# Joined texts

Two texts joined by a newline are scanned as each of them is, unless the first one ends within a
string or comment.
-/
namespace BantamSyntax

/-! ## joined normal forms -/

/-- The newline between two texts is one with a CR at the end of the first. -/
theorem normalize_join (cs : List Char) :
    ∃ xs, (normalize cs = xs ∨ normalize cs = xs ++ ['\n']) ∧
      ∀ ds, normalize (cs ++ '\n' :: ds) = xs ++ '\n' :: normalize ds := by
  fun_induction normalize cs with
  | case1 => exact ⟨[], .inl rfl, fun ds => normalize_cons (by decide)⟩
  | case2 cs ih =>
    obtain ⟨xs, alone, joined⟩ := ih
    exact ⟨'\n' :: xs, by simpa using alone, fun ds => by simp [joined]⟩
  | case3 c cs other ih =>
    obtain ⟨xs, alone, joined⟩ := ih
    by_cases hc : c = '\r'
    · subst hc
      cases cs with
      | nil => exact ⟨[], .inr rfl, fun ds => normalize_return_feed⟩
      | cons d cs =>
        have hd : d ≠ '\n' := fun hd => other cs rfl (hd ▸ rfl)
        refine ⟨'\n' :: xs, by simpa using alone, fun ds => ?_⟩
        rw [List.cons_append, normalize_return (by simpa using hd), joined, List.cons_append]
    · refine ⟨c :: xs, by simpa [hc] using alone, fun ds => ?_⟩
      rw [List.cons_append, normalize_cons hc, joined, List.cons_append]

/-! ## lexemes at another line -/

/-- The lexeme `n` lines further down. -/
def Lexeme.shift (n : Nat) (l : Lexeme) : Lexeme :=
  { l with token.line := l.token.line + n }

def Diagnostic.shift (n : Nat) (d : Diagnostic) : Diagnostic :=
  { d with line := d.line.map (· + n) }

theorem Lexeme.diagnostic?_shift (n : Nat) (l : Lexeme) (file : String) :
    (l.shift n).diagnostic? file = (l.diagnostic? file).map (Diagnostic.shift n) := by
  cases h : l.fault <;> simp [Lexeme.diagnostic?, Lexeme.shift, Diagnostic.shift, h]

namespace Scanner

theorem lexemesFrom_add (line n : Nat) (cs : List Char) :
    lexemesFrom (line + n) cs = (lexemesFrom line cs).map (Lexeme.shift n) := by
  fun_induction lexemesFrom line cs with
  | case1 line => rw [lexemesFrom_nil]; simp [ending, lexeme, Lexeme.shift]
  | case2 line c cs hb ih => rw [lexemesFrom_blank hb, ← ih, Nat.add_right_comm]
  | case3 line c cs hb ih =>
    rw [lexemesFrom_cut (by simpa using hb), List.map_cons, ← ih, Nat.add_right_comm]
    simp [Cut.lexeme, Lexeme.shift]

/-! ## joined lexemes -/

def Terminated (ls : List Lexeme) : Prop :=
  ∀ l ∈ ls, ∀ f ∈ l.fault, f.isUnterminated = false

variable {first : Char} {cs ds : List Char} {line : Nat}

/-- A lexeme that does not lack its end is the same before a newline. -/
theorem cut_join (h : ¬(cut first cs).Unterminated) (ds : List Char) :
    cut first (cs ++ '\n' :: ds) = (cut first cs).before ((cut first cs).rest ++ '\n' :: ds) := by
  obtain ⟨taken, spelled⟩ := cut_spelling first cs
  have whole := cut_append first cs
  rw [spelled, List.cons_append] at whole
  have stops : (cut first cs).StopsAt ((cut first cs).rest ++ '\n' :: ds).head? := by
    cases hr : (cut first cs).rest with
    | nil => exact .inr (.inr ⟨rfl, h⟩)
    | cons c rest => exact .inl (by rw [hr]; rfl)
  rw [← cut_stop stops, spelled, List.tail_cons, ← List.append_assoc, (List.cons.inj whole).2]

theorem terminated_cons {ls : List Lexeme} :
    Terminated ((cut first cs).lexeme line :: ls) ↔
      ¬(cut first cs).Unterminated ∧ Terminated ls := by
  simp [Terminated, Cut.Unterminated, Cut.lexeme]

theorem lexemesFrom_ne_nil : lexemesFrom line cs ≠ [] := by
  obtain ⟨body, h, -⟩ := lexemesFrom_eq_append line cs
  simp [h]

/-- The lexemes of joined texts. -/
theorem lexemesFrom_join (h : Terminated (lexemesFrom line cs)) (ds : List Char) :
    lexemesFrom line (cs ++ '\n' :: ds) =
      (lexemesFrom line cs).dropLast ++ lexemesFrom (line + newlines cs + 1) ds := by
  fun_induction lexemesFrom line cs with
  | case1 line => exact lexemesFrom_blank rfl
  | case2 line c cs hb ih =>
    rw [List.cons_append, lexemesFrom_blank hb, ih h, newlines_cons, Nat.add_assoc line]
  | case3 line c cs hb ih =>
    obtain ⟨terminated, more⟩ := terminated_cons.1 h
    have count := congrArg newlines (cut_append c cs)
    rw [newlines_append] at count
    rw [List.cons_append, lexemesFrom_cut (by simpa using hb), cut_join terminated,
      List.dropLast_cons_of_ne_nil lexemesFrom_ne_nil, List.cons_append, ← count, ← Nat.add_assoc,
      ← ih more]
    rfl

/-! ## lexemes before a last newline -/

/-- A run over all of a text goes on over more. -/
theorem run_of_rest_nil {σ : Type} {step : σ → Char → Option σ} {state : σ}
    (h : (run step state cs).2 = []) (ds : List Char) :
    (run step state (cs ++ ds)).1.2 = (run step (run step state cs).1.2 ds).1.2 := by
  induction cs generalizing state with
  | nil => rfl
  | cons c cs ih =>
    cases hs : step state c with
    | none => simp [run, hs] at h
    | some next =>
      simp only [run, hs] at h
      simpa [run, hs] using ih h

theorem cutString_newline (h : (cutString cs).Unterminated) :
    (cutString (cs ++ ['\n'])).Unterminated := by
  rw [unterminated_cutString] at h ⊢
  rw [run_of_rest_nil (run_rest_eq_nil StringState.closed_of_step h)]
  cases hs : (run StringState.step .body cs).1.2 with
  | closed => exact absurd hs h
  | body | escaped => simp [run, StringState.step]

theorem cutBlockComment_newline (h : (cutBlockComment cs).Unterminated) (star : cs ≠ []) :
    (cutBlockComment (cs ++ ['\n'])).Unterminated := by
  rw [unterminated_cutBlockComment] at h ⊢
  rw [List.tail_append_of_ne_nil star,
    run_of_rest_nil (run_rest_eq_nil CommentState.closed_of_step h)]
  cases hs : (run CommentState.step (.body false) cs.tail).1.2 with
  | closed => exact absurd hs h
  | body star => simp [run, CommentState.step]

theorem Opening.terminated_of_fault {second : Option Char} {f : LexicalFault}
    (h : of first second = .fault f) : f.isUnterminated = false := by
  unfold of at h
  repeat' split at h
  all_goals cases h
  all_goals rfl

/-- Of operators and comments, only a comment between delimiters can lack its end. -/
theorem opening_of_unterminated (h : (cutOperator first cs).Unterminated) :
    Opening.of first cs.head? = .blockComment := by
  obtain ⟨f, hf, unterminated⟩ := h
  unfold cutOperator at hf
  cases ho : Opening.of first cs.head? with
  | blockComment => rfl
  | fault g =>
    rw [ho] at hf
    cases hf
    simp [Opening.terminated_of_fault ho] at unterminated
  | single | double | lineComment =>
    rw [ho] at hf
    cases hf

theorem cutOperator_newline (h : (cutOperator first cs).Unterminated) :
    (cutOperator first (cs ++ ['\n'])).Unterminated := by
  have ho := opening_of_unterminated h
  obtain ⟨rest, rfl⟩ := List.head?_eq_some_iff.1 (Opening.eq_of_blockComment ho).2
  simp only [cutOperator, List.cons_append, List.head?_cons] at ho h ⊢
  rw [ho] at h ⊢
  exact cutBlockComment_newline h (by simp)

/-- A newline ends no string and no comment between delimiters. -/
theorem unterminated_newline (h : (cut first cs).Unterminated) :
    (cut first (cs ++ ['\n'])).Unterminated := by
  unfold cut at h ⊢
  split at h
  · exact absurd h nofun
  rw [if_neg ‹_›]
  split at h
  · obtain ⟨f, hf, unterminated⟩ := Cut.unterminated_checked.1 h
    simp [LexicalFault.terminated_of_ofInteger? hf] at unterminated
  rw [if_neg ‹_›]
  split at h
  · rw [if_pos ‹_›]
    exact cutString_newline h
  rw [if_neg ‹_›]
  exact cutOperator_newline h

theorem terminated_of_newline (h : Terminated (lexemesFrom line (cs ++ ['\n']))) :
    Terminated (lexemesFrom line cs) := by
  fun_induction lexemesFrom line cs with
  | case1 line => simp [Terminated, ending, lexeme]
  | case2 line c cs hb ih =>
    rw [List.cons_append, lexemesFrom_blank hb] at h
    exact ih h
  | case3 line c cs hb ih =>
    rw [List.cons_append, lexemesFrom_cut (by simpa using hb), terminated_cons] at h
    have terminated : ¬(cut c cs).Unterminated := fun h' => h.1 (unterminated_newline h')
    rw [cut_join terminated] at h
    exact terminated_cons.2 ⟨terminated, ih h.2⟩

/-! ## scanned texts -/

/-- What scanning a text gives, but for the scanner that is left. -/
def scanned (text name : String) : Lexemes :=
  (ofSource (.ofText text name)).tokenize.1

/-- What is reported about the lexemes. -/
def Lexemes.diagnostics (file : String) (found : Lexemes) : List Diagnostic :=
  found.lexemes.filterMap (·.diagnostic? file)

theorem scanned_eq (text name : String) :
    scanned text name = ⟨lexemesFrom 1 (normalize text.toList), none⟩ := by
  have blank :
      lexemesFrom 1 (' ' :: normalize text.toList) = lexemesFrom 1 (normalize text.toList) :=
    lexemesFrom_blank rfl
  rw [scanned, tokenize_faces (ofSource_faces (Source.ofText_gives text name)), blank]

/-- The messages tell whether all lexemes have their end. -/
theorem terminated_of_diagnostics {file : String} {found : Lexemes}
    (h : ∀ d ∈ found.diagnostics file,
      d.message ≠ "unterminated string" ∧ d.message ≠ "unterminated block comment") :
    Terminated found.lexemes := by
  intro l hl f hf
  have reported : ⟨.lexical, f.message, some l.token.line, some file⟩ ∈ found.diagnostics file :=
    List.mem_filterMap.2 ⟨l, hl, by rw [Lexeme.diagnostic?, hf]; rfl⟩
  obtain ⟨string, comment⟩ := h _ reported
  rw [Bool.eq_false_iff, Ne, LexicalFault.isUnterminated_iff]
  exact not_or.2 ⟨string, comment⟩

theorem filterMap_diagnostic?_shift (file : String) (n : Nat) (ls : List Lexeme) :
    (ls.map (Lexeme.shift n)).filterMap (·.diagnostic? file) =
      (ls.filterMap (·.diagnostic? file)).map (Diagnostic.shift n) := by
  rw [List.filterMap_map, List.map_filterMap]
  exact congrArg (List.filterMap · ls) (funext fun l => l.diagnostic?_shift n file)

theorem lexemesFrom_normalize_join (h : Terminated (lexemesFrom line (normalize cs)))
    (ds : List Char) :
    lexemesFrom line (normalize (cs ++ '\n' :: ds)) = (lexemesFrom line (normalize cs)).dropLast ++
      (lexemesFrom line (normalize ds)).map
        (Lexeme.shift (newlines (normalize (cs ++ ['\n'])))) := by
  obtain ⟨xs, alone, joined⟩ := normalize_join cs
  have count : newlines (normalize (cs ++ ['\n'])) = newlines xs + 1 := by
    rw [joined, newlines_append]
    rfl
  rw [joined, count, ← lexemesFrom_add, ← Nat.add_assoc]
  rcases alone with same | longer
  · rw [same] at h ⊢
    exact lexemesFrom_join h _
  · rw [longer] at h ⊢
    have terminated := terminated_of_newline h
    rw [lexemesFrom_join terminated, lexemesFrom_join terminated [], lexemesFrom_nil,
      List.dropLast_concat]

/-- A text that does not end within a string or comment can be scanned apart from what comes after
the next newline. -/
theorem scanned_join (u v name : String)
    (h : ∀ d ∈ (scanned u name).diagnostics name,
      d.message ≠ "unterminated string" ∧ d.message ≠ "unterminated block comment") :
    let n := newlines (normalize (u ++ "\n").toList)
    ∃ body last, scanned u name = ⟨body ++ [last], none⟩ ∧
      last.token.kind = .endOfFile ∧ (∀ l ∈ body, l.token.kind ≠ .endOfFile) ∧
      scanned (u ++ "\n" ++ v) name =
        ⟨body ++ (scanned v name).lexemes.map (Lexeme.shift n), none⟩ ∧
      (scanned (u ++ "\n" ++ v) name).diagnostics name = (scanned u name).diagnostics name ++
        ((scanned v name).diagnostics name).map (Diagnostic.shift n) := by
  have terminated := terminated_of_diagnostics h
  obtain ⟨body, split, unended⟩ := lexemesFrom_eq_append 1 (normalize u.toList)
  have joined := lexemesFrom_normalize_join (by rwa [scanned_eq] at terminated) v.toList
  rw [split, List.dropLast_concat] at joined
  simp only [Lexemes.diagnostics, scanned_eq, String.toList_append, List.append_assoc]
  refine ⟨body, _, by rw [split], rfl, fun l hl => (unended l hl).1, ?_, ?_⟩
  · exact congrArg (Lexemes.mk · none) joined
  · rw [split]
    show List.filterMap _ (lexemesFrom 1 (normalize (u.toList ++ '\n' :: v.toList))) = _
    rw [joined, List.filterMap_append, List.filterMap_append, filterMap_diagnostic?_shift]
    simp [ending, lexeme, Lexeme.diagnostic?]

/-- The first text ends within a line comment, and its CR belongs to the newline. -/
theorem scanned_join_comment :
    (∀ d ∈ (scanned "a & // b\r" "<stream>").diagnostics "<stream>",
      d.message ≠ "unterminated string" ∧ d.message ≠ "unterminated block comment") ∧
    (scanned ("a & // b\r" ++ "\n" ++ "#") "<stream>").diagnostics "<stream>" =
      (scanned "a & // b\r" "<stream>").diagnostics "<stream>" ++
        ((scanned "#" "<stream>").diagnostics "<stream>").map (Diagnostic.shift 1) := by
  have terminated : ∀ d ∈ (scanned "a & // b\r" "<stream>").diagnostics "<stream>",
      d.message ≠ "unterminated string" ∧ d.message ≠ "unterminated block comment" := by
    decide +kernel
  have count : newlines (normalize ("a & // b\r" ++ "\n").toList) = 1 := by decide +kernel
  obtain ⟨_, _, _, _, _, _, joined⟩ := scanned_join "a & // b\r" "#" "<stream>" terminated
  rw [count] at joined
  exact ⟨terminated, joined⟩

end Scanner
end BantamSyntax
