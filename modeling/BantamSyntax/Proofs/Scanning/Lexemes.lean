import BantamSyntax.Proofs.Scanning.Cutting

/-!
# Lexemes of texts

All lexemes of a text, said of the text alone. What a scanner gives until the end of its input, its
feed and its tokens are these.
-/
namespace BantamSyntax
namespace Scanner

/-! ## kinds of lexemes -/

theorem mem_of_lookup {α β : Type} [BEq α] [LawfulBEq α] {l : List (α × β)} {a : α} {b : β}
    (h : l.lookup a = some b) : (a, b) ∈ l := by
  obtain ⟨_, _, rfl, _⟩ := List.lookup_eq_some_iff.1 h
  simp

/-- What a table is looked up for has whatever all its entries have. -/
theorem of_lookup {α β : Type} [BEq α] [LawfulBEq α] {l : List (α × β)} {p : β → Prop}
    (h : ∀ b ∈ l.map (·.2), p b) {a : α} {b : β} (hb : l.lookup a = some b) : p b :=
  h b (List.mem_map.2 ⟨_, mem_of_lookup hb, rfl⟩)

/-- The kind of a word has whatever the reserved ones and that of names have. -/
theorem of_word {p : TokenKind → Prop} (name : p .identifier)
    (reserved : ∀ k ∈ TokenKind.reserved.map (·.2), p k) (word : String) :
    p ((TokenKind.reserved.lookup word).getD .identifier) := by
  cases h : TokenKind.reserved.lookup word with
  | none => exact name
  | some kind => exact of_lookup reserved h

/-- The kind of an operator or a comment has whatever the tabled ones, comments and errors have. -/
theorem of_cutOperator {p : TokenKind → Prop} (comment : p .comment) (error : p .error)
    (single : ∀ k ∈ (TokenKind.punctuators ++ TokenKind.simpleOperators).map (·.2), p k)
    (double : ∀ k ∈ TokenKind.doubleOperators.map (·.2), p k) (first : Char) (cs : List Char) :
    p (cutOperator first cs).kind := by
  unfold cutOperator
  split
  · exact of_lookup single (Opening.lookup_of_single ‹_›)
  · obtain ⟨_, _, h⟩ := Opening.lookup_of_double ‹_›
    exact of_lookup double h
  · exact comment
  · unfold cutBlockComment
    dsimp only
    split
    · exact comment
    · exact error
  · exact error

/-- A kind that stands in the tables of words and operators. -/
def isTabled (k : TokenKind) : Bool :=
  k ∉ [.comment, .error, .endOfFile]

/-- What each cut keeps: it is not the end, and it has a fault just if it is an error. -/
structure Cut.Regular (c : Cut) : Prop where
  kind : c.kind ≠ .endOfFile
  fault : c.fault.isSome ↔ c.kind = .error

theorem Cut.regular_of_isTabled {kind : TokenKind} {spelling rest : List Char}
    (h : isTabled kind = true) : Regular ⟨kind, spelling, none, rest⟩ := by
  simp only [isTabled, List.mem_cons, List.not_mem_nil, or_false, not_or, decide_eq_true_eq] at h
  exact ⟨h.2.2, by simpa using h.2.1⟩

theorem Cut.regular_of_fault {fault : LexicalFault} {spelling rest : List Char} :
    Regular ⟨.error, spelling, some fault, rest⟩ :=
  ⟨by simp, by simp⟩

theorem Cut.regular_checked {kind : TokenKind} {fault : Option LexicalFault}
    {spelling rest : List Char} (h : isTabled kind = true) :
    Regular (.checked kind fault spelling rest) := by
  cases fault with
  | none => exact regular_of_isTabled h
  | some fault => exact regular_of_fault

theorem cutOperator_regular (first : Char) (cs : List Char) : (cutOperator first cs).Regular := by
  unfold cutOperator
  split
  · have tabled := Opening.lookup_of_single ‹_›
    exact Cut.regular_of_isTabled (of_lookup (p := fun k => isTabled k) (by decide) tabled)
  · obtain ⟨_, _, tabled⟩ := Opening.lookup_of_double ‹_›
    exact Cut.regular_of_isTabled (of_lookup (p := fun k => isTabled k) (by decide) tabled)
  · exact ⟨by simp, by simp⟩
  · unfold cutBlockComment
    dsimp only
    split
    · exact ⟨by simp, by simp⟩
    · exact Cut.regular_of_fault
  · exact Cut.regular_of_fault

theorem cut_regular (first : Char) (cs : List Char) : (cut first cs).Regular := by
  unfold cut
  split
  · exact Cut.regular_of_isTabled (of_word (p := fun k => isTabled k) rfl (by decide) _)
  split
  · exact Cut.regular_checked rfl
  split
  · unfold cutString
    dsimp only
    split
    · exact Cut.regular_checked rfl
    · exact Cut.regular_of_fault
  · exact cutOperator_regular first cs

theorem cut_spelling (first : Char) (cs : List Char) :
    ∃ taken, (cut first cs).spelling = first :: taken := by
  unfold cut
  repeat' split
  · exact ⟨_, rfl⟩
  · exact ⟨_, Cut.spelling_checked⟩
  · rename_i h
    subst h
    unfold cutString
    dsimp only
    split
    · exact ⟨_, Cut.spelling_checked⟩
    · exact ⟨_, rfl⟩
  · unfold cutOperator
    split
    · exact ⟨_, rfl⟩
    · exact ⟨_, rfl⟩
    · rename_i h
      exact ⟨_, by rw [Opening.eq_of_lineComment h]⟩
    · rename_i h
      rw [(Opening.eq_of_blockComment h).1]
      unfold cutBlockComment
      dsimp only
      split <;> exact ⟨_, rfl⟩
    · exact ⟨_, rfl⟩

theorem length_rest_cut (first : Char) (cs : List Char) :
    (cut first cs).rest.length ≤ cs.length := by
  obtain ⟨taken, h⟩ := cut_spelling first cs
  have := congrArg List.length (cut_append first cs)
  simp only [h, List.cons_append, List.length_cons, List.length_append] at this
  omega

/-! ## all lexemes -/

def ending (line : Int) : Lexeme :=
  lexeme .endOfFile [] line

/-- The lexemes of a text that begins on `line`, with the empty one at its end. -/
def lexemesFrom (line : Nat) : List Char → List Lexeme
  | [] => [ending line]
  | c :: cs =>
    if isBlank c then lexemesFrom (line + newlineAt (some c)) cs
    else
      (cut c cs).lexeme line :: lexemesFrom (line + newlines (cut c cs).spelling) (cut c cs).rest
termination_by cs => cs.length
decreasing_by
  · simp
  · exact Nat.lt_succ_of_le (length_rest_cut c cs)

theorem lexemesFrom_nil {line : Nat} : lexemesFrom line [] = [ending line] := by
  rw [lexemesFrom]

theorem lexemesFrom_blank {line : Nat} {c : Char} {cs : List Char} (h : isBlank c = true) :
    lexemesFrom line (c :: cs) = lexemesFrom (line + newlineAt (some c)) cs := by
  rw [lexemesFrom, if_pos h]

theorem lexemesFrom_cut {line : Nat} {c : Char} {cs : List Char} (h : isBlank c = false) :
    lexemesFrom line (c :: cs) =
      (cut c cs).lexeme line
        :: lexemesFrom (line + newlines (cut c cs).spelling) (cut c cs).rest := by
  rw [lexemesFrom, if_neg (by simp [h])]

theorem lexemesFrom_dropBlanks {line : Nat} {cs : List Char} :
    lexemesFrom line cs =
      lexemesFrom (line + newlines (cs.takeWhile isBlank)) (cs.dropWhile isBlank) := by
  induction cs generalizing line with
  | nil => rfl
  | cons c cs ih =>
    cases h : isBlank c with
    | true =>
      rw [lexemesFrom_blank h, ih]
      simp [h, newlines_cons, Nat.add_assoc]
    | false => simp [h]

/-! ## scans -/

/-- A scan passes over white space, and what comes after it begins the lexeme. -/
theorem scan_visible {s : Scanner} {gap : List Char} {first : Char} {cs : List Char} {line : Nat}
    (h : s.Faces (gap ++ first :: cs) line) (blank : gap.all isBlank = true)
    (visible : isBlank first = false) :
    ∃ t, scan s = .ok ((cut first cs).lexeme ↑(line + newlines gap)) t ∧
      t.Faces (cut first cs).rest (line + newlines gap + newlines (cut first cs).spelling) := by
  obtain ⟨t, hb, ht⟩ := collectWhile_faces (p := isBlank) h
  have hskip : skipBlanks s = .ok () t := bind_eq_ok.2 ⟨_, t, hb, rfl⟩
  have stop : ∀ c ∈ (first :: cs).head?, isBlank c = false := by
    rintro c ⟨⟩
    exact visible
  obtain ⟨taken, dropped⟩ := takeWhile_append_stop blank stop
  rw [taken, dropped] at ht
  obtain ⟨u, ha, hu⟩ := advance_faces ht
  obtain ⟨v, hl, hv⟩ := lexemeFrom_faces t.line hu
  obtain ⟨rest, spelled⟩ := cut_spelling first cs
  have start : t.line = line + newlines gap := line_eq ht
  have count : newlines (cut first cs).spelling =
      newlineAt (some first) + newlines (cut first cs).spelling.tail := by
    rw [spelled]
    exact newlines_cons
  refine ⟨v, bind_eq_ok.2 ⟨(), t, hskip, bind_eq_ok.2 ⟨t, t, rfl, ?_⟩⟩, ?_⟩
  · rw [ht.lookahead, ← start]
    exact bind_eq_ok.2 ⟨_, u, ha, hl⟩
  · rw [count, ← Nat.add_assoc]
    exact hv

theorem scan_faces {s : Scanner} {cs : List Char} {line : Nat} (h : s.Faces cs line) :
    ∃ l t ds line', scan s = .ok l t ∧ t.Faces ds line' ∧ line' + newlines ds = line + newlines cs ∧
      (l.token.kind = .endOfFile ∧ lexemesFrom line cs = [l] ∧ ds = [] ∨
        l.token.kind ≠ .endOfFile ∧ lexemesFrom line cs = l :: lexemesFrom line' ds) := by
  have count : newlines cs =
      newlines (cs.takeWhile isBlank) + newlines (cs.dropWhile isBlank) := by
    rw [← newlines_append, List.takeWhile_append_dropWhile]
  rw [lexemesFrom_dropBlanks]
  cases hd : cs.dropWhile isBlank with
  | nil =>
    obtain ⟨t, hb, ht⟩ := collectWhile_faces (p := isBlank) h
    have hskip : skipBlanks s = .ok () t := bind_eq_ok.2 ⟨_, t, hb, rfl⟩
    rw [hd] at ht count
    refine ⟨ending t.line, t, [], _, ?_, ht, ?_, .inl ⟨rfl, ?_, rfl⟩⟩
    · refine bind_eq_ok.2 ⟨(), t, hskip, bind_eq_ok.2 ⟨t, t, rfl, ?_⟩⟩
      rw [ht.lookahead]
      rfl
    · simp [count]
    · rw [line_eq ht, lexemesFrom_nil]
  | cons first rest =>
    have visible : isBlank first = false := by
      simpa [hd] using List.head?_dropWhile_not isBlank cs
    have whole := List.takeWhile_append_dropWhile (p := isBlank) (l := cs)
    rw [hd] at whole count
    rw [← whole] at h
    obtain ⟨t, hs, ht⟩ := scan_visible h List.all_takeWhile visible
    refine ⟨_, t, _, _, hs, ht, ?_, .inr ⟨(cut_regular first rest).kind, lexemesFrom_cut visible⟩⟩
    rw [count, ← cut_append first rest, newlines_append]
    omega

/-! ## feeds and tokens -/

/-- The scans that a scanner gives, one request after the other. -/
inductive Feeds : Scanner → List Scan → Prop where
  | ending {s t : Scanner} {l : Lexeme} (h : s.scan = .ok l t) (last : l.token.kind = .endOfFile) :
      Feeds s [.ok l]
  | lexeme {s t : Scanner} {l : Lexeme} {rest : List Scan} (h : s.scan = .ok l t)
      (more : l.token.kind ≠ .endOfFile) (later : Feeds t rest) : Feeds s (.ok l :: rest)
  | stuck {s t : Scanner} {cause : InputFailure} (h : s.scan = .error cause t) :
      Feeds s [.error cause]
  | failure {s t : Scanner} {cause : InputFailure} {rest : List Scan}
      (h : s.scan = .error cause t) (later : Feeds t rest) : Feeds s (.error cause :: rest)

theorem feeds_feed (s : Scanner) : s.Feeds s.feed.toList := by
  rw [feed]
  split
  · rename_i l t hs
    by_cases hl : l.token.kind = .endOfFile
    · simpa [hl, Feed.toList] using Feeds.ending hs hl
    · have smaller : t.weight < s.weight := (weight_of_scan hs).resolve_left hl
      simpa [hl, Feed.toList] using Feeds.lexeme hs hl (feeds_feed t)
  · rename_i cause t hs
    by_cases ht : t.source.isStuck
    · simpa [ht, Feed.toList] using Feeds.stuck hs
    · have smaller : t.weight < s.weight := (shrinks_scan.error hs).resolve_right ht
      simpa [ht, Feed.toList] using Feeds.failure hs (feeds_feed t)
termination_by s.weight

theorem Feeds.of_faces {s : Scanner} {xs : List Scan} {cs : List Char} {line : Nat}
    (h : s.Feeds xs) (faces : s.Faces cs line) : xs = (lexemesFrom line cs).map .ok := by
  induction h generalizing cs line with
  | ending hs last =>
    obtain ⟨l, t, ds, line', hs', -, -, he⟩ := scan_faces faces
    cases hs.symm.trans hs'
    rcases he with ⟨-, he, -⟩ | ⟨more, -⟩
    · rw [he]
      rfl
    · exact absurd last more
  | lexeme hs more _ ih =>
    obtain ⟨l, t, ds, line', hs', ht, -, he⟩ := scan_faces faces
    cases hs.symm.trans hs'
    rcases he with ⟨last, -⟩ | ⟨-, he⟩
    · exact absurd last more
    · rw [he, List.map_cons, ih ht]
  | stuck hs | failure hs =>
    obtain ⟨l, t, ds, line', hs', -⟩ := scan_faces faces
    cases hs.symm.trans hs'

theorem feed_faces {s : Scanner} {cs : List Char} {line : Nat} (h : s.Faces cs line) :
    s.feed.toList = (lexemesFrom line cs).map .ok :=
  s.feeds_feed.of_faces h

theorem ofScans_ok (ls : List Lexeme) : Lexemes.ofScans (ls.map .ok) = ⟨ls, none⟩ := by
  induction ls with
  | nil => rfl
  | cons l ls ih => simp [Lexemes.ofScans, ih]

theorem after_faces {s : Scanner} {cs : List Char} {line : Nat} (h : s.Faces cs line) :
    (s.after (lexemesFrom line cs).length).Faces [] (line + newlines cs) := by
  obtain ⟨l, t, ds, line', hs, ht, hn, he⟩ := scan_faces h
  rcases he with ⟨_, he, rfl⟩ | ⟨hk, he⟩
  · rw [he, ← hn]
    simpa [after, hs] using ht
  · rw [he, ← hn, List.length_cons, after, hs]
    exact after_faces ht
termination_by s.weight
decreasing_by exact (weight_of_scan hs).resolve_left hk

theorem tokenize_faces {s : Scanner} {cs : List Char} {line : Nat} (h : s.Faces cs line) :
    s.tokenize = (⟨lexemesFrom line cs, none⟩, s.after (lexemesFrom line cs).length) := by
  simp [tokenize, feed_faces h, ofScans_ok]

theorem ofSource_faces {s : Source} {cs : List Char} {line : Nat} (h : s.Gives cs line) :
    (ofSource s).Faces (' ' :: cs) line where
  lookahead := rfl
  source := by simpa [ofSource, newlineAt] using h

end Scanner
end BantamSyntax
