import BantamSyntax.Proofs.Scanning.Joining

/-!
# Spelled out tokens

The spellings of a text's tokens with a newline between each two are scanned as the tokens that they
were taken from: what a lexeme is, where it ends and what is wrong with it lies in its spelling.
-/
namespace BantamSyntax

/-- The lexeme wherever it stands. -/
def Lexeme.unplaced (l : Lexeme) : TokenKind × String × Option LexicalFault :=
  (l.token.kind, l.token.spelling, l.fault)

namespace Scanner

variable {first : Char} {cs : List Char} {line : Nat}

/-! ## lexemes that lack their end -/

/-- Nothing comes after a lexeme that lacks its end. -/
theorem rest_of_unterminated (h : (cut first cs).Unterminated) : (cut first cs).rest = [] := by
  unfold cut at h ⊢
  split at h
  · exact absurd h nofun
  rw [if_neg ‹_›]
  split at h
  · obtain ⟨f, hf, unterminated⟩ := Cut.unterminated_checked.1 h
    simp [LexicalFault.terminated_of_ofInteger? hf] at unterminated
  rw [if_neg ‹_›]
  split at h
  · rw [if_pos ‹_›, rest_cutString]
    exact run_rest_eq_nil StringState.closed_of_step (unterminated_cutString.1 h)
  rw [if_neg ‹_›]
  have comment := opening_of_unterminated h
  simp only [cutOperator, comment] at h ⊢
  rw [rest_cutBlockComment]
  exact run_rest_eq_nil CommentState.closed_of_step (unterminated_cutBlockComment.1 h)

/-! ## spellings -/

/-- The spellings of the lexemes, but for the one at the end of a text. -/
def spellings (ls : List Lexeme) : List String :=
  (ls.filter (·.token.kind ≠ .endOfFile)).map (·.token.spelling)

def respelled (ls : List Lexeme) : List Char :=
  ['\n'].intercalate ((spellings ls).map String.toList)

theorem respelled_ending {n : Int} : respelled [ending n] = [] := rfl

theorem spellings_cut {ls : List Lexeme} :
    spellings ((cut first cs).lexeme line :: ls) =
      String.ofList (cut first cs).spelling :: spellings ls := by
  have kept : ((cut first cs).lexeme line).token.kind ≠ .endOfFile := (cut_regular first cs).kind
  rw [spellings, List.filter_cons_of_pos (by simpa using kept)]
  rfl

/-- A lexeme that stands alone is what it was in its text. -/
theorem lexemesFrom_alone (hb : isBlank first = false) :
    lexemesFrom line (cut first cs).spelling =
      [(cut first cs).lexeme line, ending ↑(line + newlines (cut first cs).spelling)] := by
  obtain ⟨taken, spelled⟩ := cut_spelling first cs
  have alone := cut_self first cs
  rw [spelled, List.tail_cons] at alone
  rw [spelled, lexemesFrom_cut hb, alone]
  simp only [Cut.before, lexemesFrom_nil, Cut.lexeme, spelled]

/-- So is one that has its end, before a newline and whatever comes then. -/
theorem lexemesFrom_line (hb : isBlank first = false) (ended : ¬(cut first cs).Unterminated)
    (ds : List Char) :
    lexemesFrom line ((cut first cs).spelling ++ '\n' :: ds) =
      (cut first cs).lexeme line
        :: lexemesFrom (line + newlines (cut first cs).spelling + 1) ds := by
  obtain ⟨taken, spelled⟩ := cut_spelling first cs
  have stopped : cut first ((cut first cs).spelling.tail ++ '\n' :: ds) =
      (cut first cs).before ('\n' :: ds) := cut_stop (.inr (.inr ⟨rfl, ended⟩))
  rw [spelled, List.tail_cons] at stopped
  rw [spelled, List.cons_append, lexemesFrom_cut hb, stopped, ← spelled]
  exact congrArg _ (lexemesFrom_blank rfl)

theorem lexemesFrom_respelled (line start : Nat) (cs : List Char) :
    (lexemesFrom start (respelled (lexemesFrom line cs))).map Lexeme.unplaced =
      (lexemesFrom line cs).map Lexeme.unplaced := by
  fun_induction lexemesFrom line cs generalizing start with
  | case1 line => rw [respelled_ending, lexemesFrom_nil]; rfl
  | case2 line c cs hb ih => exact ih start
  | case3 line c cs hb ih =>
    have hb : isBlank c = false := by simpa using hb
    have here (n : Nat) : ((cut c cs).lexeme n).unplaced = ((cut c cs).lexeme line).unplaced := rfl
    rw [respelled, spellings_cut, List.map_cons, String.toList_ofList]
    cases hs : spellings (lexemesFrom (line + newlines (cut c cs).spelling) (cut c cs).rest) with
    | nil =>
      have later := ih (start + newlines (cut c cs).spelling)
      simp only [respelled, hs, List.map_nil, List.intercalate_nil, lexemesFrom_nil] at later
      rw [List.map_nil, List.intercalate_singleton, lexemesFrom_alone hb, List.map_cons, here,
        later]
      rfl
    | cons s more =>
      have ended : ¬(cut c cs).Unterminated := by
        intro lacking
        rw [rest_of_unterminated lacking, lexemesFrom_nil] at hs
        cases hs
      have later := ih (start + newlines (cut c cs).spelling + 1)
      simp only [respelled, hs, List.map_cons] at later
      rw [List.map_cons, List.intercalate_cons_cons, List.append_assoc, List.singleton_append,
        lexemesFrom_line hb ended, List.map_cons, here, later]
      rfl

theorem return_notMem_spelling {l : Lexeme} (hr : '\r' ∉ cs) (hl : l ∈ lexemesFrom line cs) :
    '\r' ∉ l.token.spelling.toList := by
  fun_induction lexemesFrom line cs with
  | case1 line =>
    rw [List.mem_singleton.1 hl]
    simp [ending, lexeme]
  | case2 line c cs hb ih => exact ih (fun h => hr (List.mem_cons_of_mem _ h)) hl
  | case3 line c cs hb ih =>
    rw [← cut_append, List.mem_append, not_or] at hr
    rcases List.mem_cons.1 hl with rfl | hl
    · simpa [Cut.lexeme] using hr.1
    · exact ih hr.2 hl

/-! ## scanned texts -/

theorem messages_diagnostics (file : String) (found : Lexemes) :
    (found.diagnostics file).map (·.message) =
      (found.lexemes.map Lexeme.unplaced).filterMap fun (_, _, fault) =>
        fault.map LexicalFault.message := by
  rw [Lexemes.diagnostics, List.map_filterMap, List.filterMap_map]
  refine congrArg (List.filterMap · found.lexemes) (funext fun l => ?_)
  simp only [Lexeme.diagnostic?, Option.map_map, Function.comp_apply, Lexeme.unplaced]
  rfl

theorem symbols_unplaced (ls : List Lexeme) :
    ls.map (fun l => (l.token.kind, l.token.spelling)) =
      (ls.map Lexeme.unplaced).map fun (kind, spelling, _) => (kind, spelling) := by
  rw [List.map_map]
  rfl

theorem return_notMem_spellings (text name : String) :
    ∀ s ∈ spellings (scanned text name).lexemes, '\r' ∉ s.toList := by
  intro s hs
  obtain ⟨l, hl, rfl⟩ := List.mem_map.1 hs
  rw [scanned_eq] at hl
  exact return_notMem_spelling (return_notMem_normalize _) (List.mem_filter.1 hl).1

/-- The spellings of the tokens of a text, with a newline between each two, have the same tokens but
for their lines, and the same is wrong with them. -/
theorem scanned_spellings (text name other : String) :
    let found := scanned text name
    let again := scanned ("\n".intercalate (spellings found.lexemes)) other
    found.failure = none ∧ again.failure = none ∧
      again.lexemes.map (fun l => (l.token.kind, l.token.spelling)) =
        found.lexemes.map (fun l => (l.token.kind, l.token.spelling)) ∧
      (again.diagnostics other).map (·.message) = (found.diagnostics name).map (·.message) := by
  have unchanged := normalize_eq_self
    (return_notMem_intercalate (return_notMem_spellings text name))
  have same : (scanned ("\n".intercalate (spellings (scanned text name).lexemes)) other).lexemes.map
      Lexeme.unplaced = (scanned text name).lexemes.map Lexeme.unplaced := by
    rw [scanned_eq ("\n".intercalate _), unchanged, String.toList_intercalate, scanned_eq]
    exact lexemesFrom_respelled 1 1 _
  refine ⟨by rw [scanned_eq], by rw [scanned_eq], ?_, ?_⟩
  · rw [symbols_unplaced, symbols_unplaced, same]
  · rw [messages_diagnostics, messages_diagnostics, same]

end Scanner
end BantamSyntax
