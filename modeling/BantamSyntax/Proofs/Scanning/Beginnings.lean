import BantamSyntax.Proofs.Scanning.Reconstruction
import BantamSyntax.Proofs.Scanning.Stopping

/-!
# Texts that begin alike

Each lexeme of a text is settled by the characters up to the one after it. Texts that have these in
common have the lexeme in common, and all that stand before it.
-/
namespace BantamSyntax

theorem weave_take_append_drop (gaps : List (List Char)) (ts : List Token) (n : Nat) :
    weave (gaps.take n) (ts.take n) ++ weave (gaps.drop n) (ts.drop n) = weave gaps ts := by
  simp only [weave, ← List.take_zipWith, ← List.drop_zipWith, ← List.flatten_append,
    List.take_append_drop]

/-- The first tokens of a text are taken from the beginning of it. -/
theorem Tiles.take {line : Nat} {cs : List Char} {gaps : List (List Char)} {ts : List Token}
    (h : Tiles line cs gaps ts) (n : Nat) :
    Tiles line (cs.take (weave (gaps.take n) (ts.take n)).length) (gaps.take n) (ts.take n) where
  size := by simp [h.size]
  blank := fun gap hg => h.blank gap (List.mem_of_mem_take hg)
  text := by
    rw [← h.text, ← weave_take_append_drop gaps ts n, List.take_left]
  lines := by
    intro i gap t hg ht
    rw [List.getElem?_take] at hg ht
    split at hg
    · rename_i hi
      rw [List.take_take, List.take_take, Nat.min_eq_left (Nat.le_of_lt hi)]
      exact h.lines i gap t hg (by rwa [if_pos hi] at ht)
    · cases hg

namespace Scanner

variable {line : Nat} {next : Char} {gap cs ds rest rest' : List Char} {gaps : List (List Char)}
  {t : Token} {ts : List Token}

theorem isBlank_of_tiled (h : ∀ c ∈ gap, c = ' ' ∨ c = '\t' ∨ c = '\n') :
    ∀ c ∈ gap, isBlank c = true := by
  intro c hc
  rcases h c hc with rfl | rfl | rfl <;> rfl

theorem lexemesFrom_gap (blank : ∀ c ∈ gap, isBlank c = true) :
    lexemesFrom line (gap ++ cs) = lexemesFrom (line + newlines gap) cs := by
  induction gap generalizing line with
  | nil => rfl
  | cons c gap ih =>
    rw [List.forall_mem_cons] at blank
    rw [List.cons_append, lexemesFrom_blank blank.1, ih blank.2, newlines_cons, Nat.add_assoc]

/-- The first lexeme of a text is the ending, or cut from where the white space is over. -/
theorem lexemesFrom_begins (line : Nat) (cs : List Char) :
    (∃ n, lexemesFrom line cs = [ending n]) ∨
      ∃ c ds n ls, cs.dropWhile isBlank = c :: ds ∧ isBlank c = false ∧
        lexemesFrom line cs = (cut c ds).lexeme n :: ls := by
  rw [lexemesFrom_dropBlanks]
  cases dropped : cs.dropWhile isBlank with
  | nil => exact .inl ⟨_, lexemesFrom_nil⟩
  | cons c ds =>
    have visible : isBlank c = false := by
      simpa [dropped] using List.head?_dropWhile_not isBlank cs
    exact .inr ⟨c, ds, _, _, rfl, visible, lexemesFrom_cut visible⟩

/-- A token that begins a text is cut there. -/
theorem cut_of_begins
    (given : t :: ts <+: (lexemesFrom line (t.spelling.toList ++ cs)).map (·.token))
    (more : t.kind ≠ .endOfFile) : ∃ c taken, t.spelling.toList = c :: taken ∧
      isBlank c = false ∧ (cut c (taken ++ cs)).spelling = c :: taken ∧
      (cut c (taken ++ cs)).rest = cs := by
  rcases lexemesFrom_begins line (t.spelling.toList ++ cs) with ⟨n, he⟩ |
    ⟨c, ds, n, ls, dropped, visible, he⟩
  · rw [he] at given
    obtain ⟨rfl, -⟩ := List.cons_prefix_cons.1 given
    exact absurd rfl more
  · rw [he] at given
    obtain ⟨rfl, -⟩ := List.cons_prefix_cons.1 given
    obtain ⟨taken, spelled⟩ := cut_spelling c ds
    have parts := cut_append c ds
    have whole : (c :: taken ++ cs).dropWhile isBlank = c :: taken ++ cs :=
      List.dropWhile_cons_of_neg (by simp [visible])
    simp only [Cut.lexeme, String.toList_ofList, spelled] at dropped parts ⊢
    have split : c :: taken ++ cs = c :: ds := whole.symm.trans dropped
    have rest : (cut c ds).rest = cs := List.append_cancel_left (parts.trans split.symm)
    obtain rfl : taken ++ cs = ds := (List.cons.inj split).2
    exact ⟨c, taken, rfl, visible, spelled, rest⟩

/-- A token that begins a text begins every text that has the same character after it. -/
theorem lexemesFrom_begun
    (given : t :: ts <+: (lexemesFrom line (t.spelling.toList ++ cs)).map (·.token))
    (more : t.kind ≠ .endOfFile) : ∃ l, ∀ ds : List Char, ds.head? = cs.head? →
      lexemesFrom line (t.spelling.toList ++ ds) =
        l :: lexemesFrom (line + newlines t.spelling.toList) ds := by
  obtain ⟨c, taken, spelled, visible, cutting, rest⟩ := cut_of_begins given more
  refine ⟨(cut c (taken ++ cs)).lexeme line, fun ds same => ?_⟩
  have stopped : cut c ((cut c (taken ++ cs)).spelling.tail ++ ds) =
      (cut c (taken ++ cs)).before ds := cut_stop (.inl (by rw [rest, same]))
  rw [cutting, List.tail_cons] at stopped
  rw [spelled, List.cons_append, lexemesFrom_cut visible, stopped, ← cutting]
  rfl

/-- Texts have the same lexemes up to one after which they have a character in common. -/
theorem take_lexemesFrom (size : gaps.length = ts.length)
    (blank : ∀ gap ∈ gaps, ∀ c ∈ gap, isBlank c = true) (more : ∀ t ∈ ts, t.kind ≠ .endOfFile)
    (given : ts <+: (lexemesFrom line (weave gaps ts ++ next :: rest)).map (·.token)) :
    (lexemesFrom line (weave gaps ts ++ next :: rest')).take ts.length =
      (lexemesFrom line (weave gaps ts ++ next :: rest)).take ts.length := by
  induction ts generalizing gaps line with
  | nil => rfl
  | cons t ts ih =>
    obtain ⟨gap, gaps, rfl⟩ := List.exists_cons_of_length_eq_add_one size
    rw [List.forall_mem_cons] at blank more
    simp only [weave_cons, List.append_assoc, lexemesFrom_gap blank.1] at given ⊢
    obtain ⟨l, begun⟩ := lexemesFrom_begun given more.1
    have same : (weave gaps ts ++ next :: rest').head? = (weave gaps ts ++ next :: rest).head? := by
      cases weave gaps ts <;> rfl
    rw [begun _ rfl, List.map_cons] at given
    rw [begun _ rfl, begun _ same, List.length_cons, List.take_succ_cons, List.take_succ_cons,
      ih (Nat.succ.inj size) blank.2 more.2 (List.cons_prefix_cons.1 given).2]

end Scanner
end BantamSyntax
