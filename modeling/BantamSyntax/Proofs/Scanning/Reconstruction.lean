import BantamSyntax.Proofs.Scanning.Lexemes

/-!
# Reconstruction of texts

The tokens of a text and the white space between them make up the normalised text, character by
character, and each token knows its line.
-/
namespace BantamSyntax

/-- The spellings of the tokens, each after its gap. -/
def weave (gaps : List (List Char)) (ts : List Token) : List Char :=
  (gaps.zipWith (fun gap t => gap ++ t.spelling.toList) ts).flatten

@[simp] theorem weave_nil {ts : List Token} : weave [] ts = [] := rfl

@[simp] theorem weave_cons {gap : List Char} {gaps : List (List Char)} {t : Token}
    {ts : List Token} :
    weave (gap :: gaps) (t :: ts) = gap ++ t.spelling.toList ++ weave gaps ts := by
  simp [weave]

/-- A text that begins on `line`, taken apart into tokens and the white space before each. -/
structure Tiles (line : Nat) (cs : List Char) (gaps : List (List Char)) (ts : List Token) :
    Prop where
  size : gaps.length = ts.length
  blank : ∀ gap ∈ gaps, ∀ c ∈ gap, c = ' ' ∨ c = '\t' ∨ c = '\n'
  text : weave gaps ts = cs
  lines : ∀ i gap t, gaps[i]? = some gap → ts[i]? = some t →
    t.line = ((line + Scanner.newlines (weave (gaps.take i) (ts.take i) ++ gap) : Nat) : Int)

namespace Tiles

variable {line : Nat} {c : Char} {cs : List Char} {gaps : List (List Char)} {ts : List Token}

/-- A text without characters has only the token at its end. -/
theorem nil {t : Token} (spelled : t.spelling = "") (at_line : t.line = line) :
    Tiles line [] [[]] [t] where
  size := rfl
  blank := by simp
  text := by simp [spelled]
  lines := by
    intro i gap u hg hu
    cases i with
    | zero => simp_all
    | succ i => simp at hu

/-- A blank widens the first gap. -/
theorem blank_cons (hc : c = ' ' ∨ c = '\t' ∨ c = '\n')
    (h : Tiles (line + newlineAt (some c)) cs gaps ts) (ne : ts ≠ []) :
    ∃ gaps, Tiles line (c :: cs) gaps ts := by
  obtain ⟨size, blank, text, lines⟩ := h
  obtain ⟨t, ts, rfl⟩ := List.exists_cons_of_ne_nil ne
  obtain ⟨gap, gaps, rfl⟩ := List.exists_cons_of_length_eq_add_one size
  refine ⟨(c :: gap) :: gaps, size, ?_, by simp [← text], ?_⟩
  · intro g hg d hd
    rcases List.mem_cons.1 hg with rfl | hg
    · rcases List.mem_cons.1 hd with rfl | hd
      · exact hc
      · exact blank gap (by simp) d hd
    · exact blank g (by simp [hg]) d hd
  · intro i g u hg hu
    cases i with
    | zero =>
      have := lines 0 gap u rfl hu
      simp only [List.getElem?_cons_zero, Option.some.injEq] at hg
      simp only [List.take_zero, weave_nil, List.nil_append] at this
      simp only [← hg, this, List.take_zero, weave_nil, List.nil_append, Scanner.newlines_cons]
      omega
    | succ i =>
      have := lines (i + 1) g u hg hu
      simp only [List.take_succ_cons, weave_cons, List.append_assoc, List.cons_append,
        Scanner.newlines_cons] at this ⊢
      omega

/-- A token that begins a text has no gap before it. -/
theorem cons {t : Token} {spelling rest : List Char} (spelled : t.spelling.toList = spelling)
    (at_line : t.line = line) (h : Tiles (line + Scanner.newlines spelling) rest gaps ts) :
    Tiles line (spelling ++ rest) ([] :: gaps) (t :: ts) where
  size := by simp [h.size]
  blank := by simpa using h.blank
  text := by simp [spelled, h.text]
  lines := by
    intro i g u hg hu
    cases i with
    | zero => simp_all
    | succ i =>
      have := h.lines i g u hg hu
      simp only [List.take_succ_cons, weave_cons, List.nil_append, spelled, List.append_assoc,
        Scanner.newlines_append] at this ⊢
      omega

end Tiles

namespace Scanner

theorem isBlank_iff {c : Char} : isBlank c = true ↔ c = ' ' ∨ c = '\t' ∨ c = '\n' ∨ c = '\r' := by
  simp [isBlank]

/-- All lexemes before the one at the end are regular and not empty. -/
theorem lexemesFrom_eq_append (line : Nat) (cs : List Char) :
    ∃ body, lexemesFrom line cs = body ++ [ending ↑(line + newlines cs)] ∧
      ∀ l ∈ body, l.token.kind ≠ .endOfFile ∧ l.token.spelling ≠ "" ∧
        (l.fault.isSome ↔ l.token.kind = .error) := by
  fun_induction lexemesFrom line cs with
  | case1 line => exact ⟨[], by simp, by simp⟩
  | case2 line c cs hb ih =>
    obtain ⟨body, he, hbody⟩ := ih
    exact ⟨body, by simpa [newlines_cons, Nat.add_assoc] using he, hbody⟩
  | case3 line c cs hb ih =>
    obtain ⟨body, he, hbody⟩ := ih
    obtain ⟨taken, spelled⟩ := cut_spelling c cs
    have count := congrArg newlines (cut_append c cs)
    rw [newlines_append] at count
    refine ⟨(cut c cs).lexeme line :: body, ?_, ?_⟩
    · rw [he, List.cons_append, ← count, Nat.add_assoc]
    · intro l hl
      rcases List.mem_cons.1 hl with rfl | hl
      · exact ⟨(cut_regular c cs).kind, by simp [Cut.lexeme, spelled], (cut_regular c cs).fault⟩
      · exact hbody l hl

theorem lexemesFrom_tiles (line : Nat) (cs : List Char) (h : '\r' ∉ cs) :
    ∃ gaps, Tiles line cs gaps ((lexemesFrom line cs).map (·.token)) := by
  fun_induction lexemesFrom line cs with
  | case1 line => exact ⟨_, .nil rfl rfl⟩
  | case2 line c cs hb ih =>
    simp only [List.mem_cons, not_or] at h
    obtain ⟨gaps, ht⟩ := ih h.2
    obtain ⟨body, he, _⟩ := lexemesFrom_eq_append (line + newlineAt (some c)) cs
    refine ht.blank_cons ?_ (by simp [he])
    rcases isBlank_iff.1 hb with hc | hc | hc | hc
    · exact .inl hc
    · exact .inr (.inl hc)
    · exact .inr (.inr hc)
    · exact absurd hc.symm h.1
  | case3 line c cs hb ih =>
    have hr : '\r' ∉ (cut c cs).rest := by
      rw [← cut_append] at h
      exact fun hr => h (List.mem_append_right _ hr)
    obtain ⟨gaps, ht⟩ := ih hr
    refine ⟨[] :: gaps, ?_⟩
    rw [← cut_append c cs]
    exact .cons (by simp [Cut.lexeme]) rfl ht

theorem scan_ended {s : Scanner} {line : Nat} (h : s.Faces [] line) :
    ∃ t, scan s = .ok (ending line) t ∧ t.Faces [] line := by
  obtain ⟨l, t, ds, line', hs, ht, hn, he⟩ := scan_faces h
  rw [lexemesFrom_nil] at he
  rcases he with ⟨_, he, rfl⟩ | ⟨hk, he⟩
  · cases he
    simp only [newlines_nil, Nat.add_zero] at hn
    exact ⟨t, hs, hn ▸ ht⟩
  · obtain ⟨rfl, _⟩ := List.cons.inj he
    exact absurd rfl hk

theorem after_ended {s : Scanner} {line : Nat} (h : s.Faces [] line) (n : Nat) :
    (s.after n).Faces [] line := by
  induction n generalizing s with
  | zero => exact h
  | succ n ih =>
    obtain ⟨t, hs, ht⟩ := scan_ended h
    simpa only [after, hs] using ih ht

/-- Nothing is lost in scanning: the tokens of a text and the white space before each are the
normalised text; the last token is the only one at the end of it, and is given ever after. -/
theorem tokenize_reconstructs (text name : String) :
    ∃ body last s,
      (ofSource (.ofText text name)).tokenize = (⟨body ++ [last], none⟩, s) ∧
      last.token.kind = .endOfFile ∧ last.token.spelling = "" ∧
      (∀ l ∈ body, l.token.kind ≠ .endOfFile ∧ l.token.spelling ≠ "") ∧
      (∃ gaps, Tiles 1 (normalize text.toList) gaps ((body ++ [last]).map (·.token))) ∧
      ∀ n, ∃ t, (s.after n).scan = .ok last t := by
  have faces := ofSource_faces (Source.ofText_gives text name)
  have skipped : lexemesFrom 1 (' ' :: normalize text.toList) =
      lexemesFrom 1 (normalize text.toList) := lexemesFrom_blank rfl
  have given := tokenize_faces faces
  have ended := after_faces faces
  obtain ⟨body, he, hbody⟩ := lexemesFrom_eq_append 1 (normalize text.toList)
  rw [skipped, he] at given ended
  refine ⟨body, _, _, given, rfl, rfl, fun l hl => ⟨(hbody l hl).1, (hbody l hl).2.1⟩, ?_, ?_⟩
  · rw [← he]
    exact lexemesFrom_tiles 1 _ (return_notMem_normalize _)
  · intro n
    obtain ⟨t, hs, _⟩ := scan_ended (after_ended ended n)
    exact ⟨t, by simpa [newlines_cons, newlineAt] using hs⟩

end Scanner
end BantamSyntax
