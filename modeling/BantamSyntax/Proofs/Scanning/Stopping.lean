import BantamSyntax.Proofs.Scanning.Lexemes

/-!
# What stops a lexeme

A lexeme is decided by its own characters. Of what comes after it only the next character matters,
and a newline stops it as the end of the text does, unless it is a literal or comment that lacks its
end.
-/
namespace BantamSyntax

/-- A literal or comment lacks its end, so that it takes all that is left of the text. -/
def LexicalFault.isUnterminated (f : LexicalFault) : Bool :=
  f ∈ [unterminatedString, unterminatedComment]

theorem LexicalFault.isUnterminated_iff {f : LexicalFault} :
    f.isUnterminated = true ↔ f.message = unterminatedString.message ∨
      f.message = unterminatedComment.message := by
  cases f <;> decide

theorem LexicalFault.terminated_of_ofInteger? {f : LexicalFault} {cs : List Char}
    (h : ofInteger? cs = some f) : f.isUnterminated = false := by
  simp only [ofInteger?] at h
  split at h
  · cases h
    rfl
  · cases h

theorem LexicalFault.terminated_of_ofString? {f : LexicalFault} {cs : List Char}
    (h : ofString? cs = some f) : f.isUnterminated = false := by
  unfold ofString? at h
  repeat' split at h
  all_goals cases h
  all_goals rfl

namespace Scanner

/-! ## operators -/

/-- No operator goes on over a newline. -/
theorem lookup_newline (first : Char) : TokenKind.doubleOperators.lookup (first, '\n') = none := by
  cases h : TokenKind.doubleOperators.lookup (first, '\n') with
  | none => rfl
  | some kind =>
    have := mem_of_lookup h
    simp [TokenKind.doubleOperators] at this

theorem Opening.of_newline (first : Char) : of first (some '\n') = of first none := by
  simp [of, lookup_newline]

/-- What a character begins when it stands alone. -/
theorem Opening.of_none_of_single {first : Char} {second : Option Char} {kind : TokenKind}
    (h : of first second = .single kind) : of first none = .single kind := by
  unfold of at h ⊢
  repeat' split at h
  all_goals simp_all

theorem Opening.second_of_lineComment {first : Char} {second : Option Char}
    (h : of first second = .lineComment) : second = some '/' := by
  unfold of at h
  repeat' split at h
  all_goals simp_all

theorem Opening.of_none_of_fault {first : Char} {second : Option Char} {f : LexicalFault}
    (h : of first second = .fault f) : of first none = .fault f := by
  unfold of at h ⊢
  repeat' split at h
  all_goals simp_all

/-! ## runs -/

/-- A run ends at the end of the text or where its last state does not go on. -/
theorem run_rest {σ : Type} (step : σ → Char → Option σ) (state : σ) (cs : List Char) :
    ∀ c ∈ (run step state cs).2.head?, step (run step state cs).1.2 c = none := by
  fun_induction run step state cs with
  | case1 => simp
  | case2 state c cs stop =>
    rintro d ⟨⟩
    exact stop
  | case3 state c cs next _ more ih => exact ih

theorem StringState.closed_of_step {state : StringState} {c : Char} (h : state.step c = none) :
    state = .closed := by
  unfold StringState.step at h
  split at h <;> simp_all

theorem CommentState.closed_of_step {state : CommentState} {c : Char} (h : state.step c = none) :
    state = .closed := by
  unfold CommentState.step at h
  split at h <;> simp_all

/-- A run that only `last` stops takes all of the text if it ends otherwise. -/
theorem run_rest_eq_nil {σ : Type} {step : σ → Char → Option σ} {state last : σ} {cs : List Char}
    (only : ∀ {s c}, step s c = none → s = last) (h : (run step state cs).1.2 ≠ last) :
    (run step state cs).2 = [] := by
  have stops := run_rest step state cs
  cases hr : (run step state cs).2 with
  | nil => rfl
  | cons c rest => exact absurd (only (stops c (by rw [hr]; rfl))) h

/-! ## cuts before another text -/

namespace Cut

/-- The cut with another text after it. -/
def before (c : Cut) (rest : List Char) : Cut :=
  { c with rest }

theorem before_checked {kind fault spelling rest rest'} :
    (checked kind fault spelling rest).before rest' = checked kind fault spelling rest' := by
  cases fault <;> rfl

def Unterminated (c : Cut) : Prop :=
  ∃ f ∈ c.fault, f.isUnterminated = true

/-- The cut is the same if `next` comes right after it. -/
def StopsAt (c : Cut) (next : Option Char) : Prop :=
  next = c.rest.head? ∨ next = none ∨ next = some '\n' ∧ ¬c.Unterminated

variable {c : Cut} {next : Option Char}

theorem StopsAt.cases (h : c.StopsAt next) :
    next = c.rest.head? ∨ next = none ∨ next = some '\n' :=
  h.imp_right (Or.imp_right And.left)

/-- What stops the cut stops the characters that are taken from `cs` for as long as they pass. -/
theorem StopsAt.takeWhile_append {rest : List Char} (h : c.StopsAt rest.head?) (p : Char → Bool)
    (cs : List Char) (dropped : c.rest = cs.dropWhile p) (newline : p '\n' = false) :
    (cs.takeWhile p ++ rest).takeWhile p = cs.takeWhile p ∧
      (cs.takeWhile p ++ rest).dropWhile p = rest := by
  refine takeWhile_append_stop List.all_takeWhile fun d hd => ?_
  rcases h.cases with same | none | feed
  · have := List.head?_dropWhile_not p cs
    rw [← dropped, ← same, hd] at this
    simpa using this
  · rw [none] at hd
    cases hd
  · rw [feed] at hd
    cases hd
    exact newline

theorem unterminated_checked {kind : TokenKind} {fault : Option LexicalFault}
    {spelling rest : List Char} : (checked kind fault spelling rest).Unterminated ↔
      ∃ f ∈ fault, f.isUnterminated = true := by
  cases fault <;> rfl

/-- What stops the cut stops the run that it comes from, if only `last` stops that run. -/
theorem StopsAt.stops_run {σ : Type} {last : σ} (h : c.StopsAt next) (step : σ → Char → Option σ)
    (state : σ) (cs : List Char) (rest : c.rest = (run step state cs).2)
    (lacks_end : (run step state cs).1.2 ≠ last → c.Unterminated)
    (only : ∀ {s d}, step s d = none → s = last) (stuck : ∀ d, step last d = none) :
    ∀ d ∈ next, step (run step state cs).1.2 d = none := by
  intro d hd
  by_cases ended : (run step state cs).1.2 = last
  · rw [ended]
    exact stuck d
  · rcases h with rfl | rfl | ⟨-, terminated⟩
    · rw [rest, run_rest_eq_nil only ended] at hd
      cases hd
    · cases hd
    · exact absurd (lacks_end ended) terminated

end Cut

/-! ## strings and comments -/

variable {first : Char} {cs rest : List Char}

theorem spelling_cutString :
    (cutString cs).spelling = '"' :: (run StringState.step .body cs).1.1 := by
  unfold cutString
  dsimp only
  split <;> simp

theorem rest_cutString : (cutString cs).rest = (run StringState.step .body cs).2 := by
  unfold cutString
  dsimp only
  split <;> simp

theorem kind_cutString_eq (cs : List Char) :
    (cutString cs).kind = .string ∨ (cutString cs).kind = .error := by
  unfold cutString
  dsimp only
  split
  · cases LexicalFault.ofString? ('"' :: (run StringState.step .body cs).1.1) with
    | none => exact .inl rfl
    | some fault => exact .inr rfl
  · exact .inr rfl

theorem unterminated_cutString :
    (cutString cs).Unterminated ↔ (run StringState.step .body cs).1.2 ≠ StringState.closed := by
  unfold cutString
  dsimp only
  split
  · rename_i closed
    rw [Cut.unterminated_checked]
    refine iff_of_false ?_ (not_not_intro closed)
    rintro ⟨f, hf, unterminated⟩
    simp [LexicalFault.terminated_of_ofString? hf] at unterminated
  · exact iff_of_true ⟨_, rfl, rfl⟩ ‹_›

theorem cutString_stop (h : (cutString cs).StopsAt rest.head?) :
    cutString ((cutString cs).spelling.tail ++ rest) = (cutString cs).before rest := by
  have stop := h.stops_run StringState.step .body cs rest_cutString unterminated_cutString.2
    StringState.closed_of_step fun _ => rfl
  rw [spelling_cutString, List.tail_cons]
  simp only [cutString, run_stop stop]
  split
  · exact Cut.before_checked.symm
  · rfl

theorem spelling_cutBlockComment :
    (cutBlockComment cs).spelling =
      '/' :: '*' :: (run CommentState.step (.body false) cs.tail).1.1 := by
  unfold cutBlockComment
  dsimp only
  split <;> rfl

theorem rest_cutBlockComment :
    (cutBlockComment cs).rest = (run CommentState.step (.body false) cs.tail).2 := by
  unfold cutBlockComment
  dsimp only
  split <;> rfl

theorem unterminated_cutBlockComment : (cutBlockComment cs).Unterminated ↔
    (run CommentState.step (.body false) cs.tail).1.2 ≠ CommentState.closed := by
  unfold cutBlockComment
  dsimp only
  split
  · rename_i closed
    exact iff_of_false nofun (not_not_intro closed)
  · exact iff_of_true ⟨_, rfl, rfl⟩ ‹_›

theorem cutBlockComment_stop (h : (cutBlockComment cs).StopsAt rest.head?) :
    cutBlockComment ((cutBlockComment cs).spelling.tail ++ rest) =
      (cutBlockComment cs).before rest := by
  have stop := h.stops_run CommentState.step (.body false) cs.tail rest_cutBlockComment
    unterminated_cutBlockComment.2 CommentState.closed_of_step fun _ => rfl
  rw [spelling_cutBlockComment, List.tail_cons, List.cons_append]
  simp only [cutBlockComment, List.tail_cons, run_stop stop]
  split <;> rfl

/-! ## all lexemes -/

theorem cutOperator_stop (h : (cutOperator first cs).StopsAt rest.head?) :
    cutOperator first ((cutOperator first cs).spelling.tail ++ rest) =
      (cutOperator first cs).before rest := by
  cases ho : Opening.of first cs.head? with
  | single kind =>
    have alone : Opening.of first rest.head? = .single kind := by
      simp only [cutOperator, ho] at h
      rcases h.cases with same | none | newline
      · rw [same, ho]
      · rw [none, Opening.of_none_of_single ho]
      · rw [newline, Opening.of_newline, Opening.of_none_of_single ho]
    simp [cutOperator, ho, alone, Cut.before]
  | fault f =>
    have alone : Opening.of first rest.head? = .fault f := by
      simp only [cutOperator, ho] at h
      rcases h.cases with same | none | newline
      · rw [same, ho]
      · rw [none, Opening.of_none_of_fault ho]
      · rw [newline, Opening.of_newline, Opening.of_none_of_fault ho]
    simp [cutOperator, ho, alone, Cut.before]
  | double kind =>
    obtain ⟨second, hc, -⟩ := Opening.lookup_of_double ho
    rw [hc] at ho
    simp [cutOperator, ho, hc, Cut.before]
  | lineComment =>
    obtain ⟨ds, rfl⟩ := List.head?_eq_some_iff.1 (Opening.second_of_lineComment ho)
    rw [List.head?_cons] at ho
    have eq (es : List Char) : cutOperator first ('/' :: es) = ⟨.comment,
        '/' :: ('/' :: es).takeWhile (· ≠ '\n'), none, ('/' :: es).dropWhile (· ≠ '\n')⟩ := by
      simp only [cutOperator, List.head?_cons, ho]
    obtain ⟨taken, dropped⟩ := h.takeWhile_append (· ≠ '\n') ('/' :: ds) (by rw [eq]) rfl
    rw [List.takeWhile_cons_of_pos (by decide), List.cons_append] at taken dropped
    rw [eq, List.tail_cons, List.takeWhile_cons_of_pos (by decide), List.cons_append, eq, taken,
      dropped]
    rfl
  | blockComment =>
    have star := (Opening.eq_of_blockComment ho).2
    have eq {es : List Char} (hs : es.head? = some '*') :
        cutOperator first es = cutBlockComment es := by
      simp only [cutOperator, hs, ← star, ho]
    rw [eq star] at h ⊢
    rw [eq (by rw [spelling_cutBlockComment]; rfl)]
    exact cutBlockComment_stop h

theorem cut_stop (h : (cut first cs).StopsAt rest.head?) :
    cut first ((cut first cs).spelling.tail ++ rest) = (cut first cs).before rest := by
  by_cases alpha : first.isAlpha
  · obtain ⟨taken, dropped⟩ := h.takeWhile_append isWordChar cs (by simp [cut, alpha]) rfl
    simp [cut, alpha, taken, dropped, Cut.before]
  by_cases digit : first.isDigit
  · obtain ⟨taken, dropped⟩ :=
      h.takeWhile_append Char.isDigit cs (by simp [cut, alpha, digit]) rfl
    simp [cut, alpha, digit, taken, dropped, Cut.before_checked]
  by_cases quote : first = '"'
  · have eq (ds : List Char) : cut first ds = cutString ds := by
      rw [cut, if_neg alpha, if_neg digit, if_pos quote]
    rw [eq] at h ⊢
    rw [eq]
    exact cutString_stop h
  · have eq (ds : List Char) : cut first ds = cutOperator first ds := by
      rw [cut, if_neg alpha, if_neg digit, if_neg quote]
    rw [eq] at h ⊢
    rw [eq]
    exact cutOperator_stop h

/-- A lexeme is the same when nothing comes after it. -/
theorem cut_self (first : Char) (cs : List Char) :
    cut first (cut first cs).spelling.tail = (cut first cs).before [] := by
  simpa using @cut_stop first cs [] (.inr (.inl rfl))

/-- The spelling decides the kind and the fault. -/
theorem cut_of_spelling {second : Char} {ds : List Char}
    (h : (cut first cs).spelling = (cut second ds).spelling) :
    (cut first cs).before [] = (cut second ds).before [] := by
  obtain ⟨taken, hc⟩ := cut_spelling first cs
  obtain ⟨others, hd⟩ := cut_spelling second ds
  obtain rfl : first = second := by
    rw [hc, hd] at h
    exact (List.cons.inj h).1
  rw [← cut_self, ← cut_self, h]

/-! ## faults -/

theorem mem_lexemesFrom {l : Lexeme} {line : Nat} (h : l ∈ lexemesFrom line cs) :
    (∃ n, l = ending n) ∨ ∃ (c : Char) (ds : List Char) (n : Nat), l = (cut c ds).lexeme n := by
  fun_induction lexemesFrom line cs with
  | case1 line => exact .inl ⟨line, List.mem_singleton.1 h⟩
  | case2 line c cs hb ih => exact ih h
  | case3 line c cs hb ih =>
    rcases List.mem_cons.1 h with rfl | h
    · exact .inr ⟨c, cs, line, rfl⟩
    · exact ih h

theorem spelling_lexeme_ne {n : Int} : ((cut first cs).lexeme n).token.spelling ≠ "" := by
  obtain ⟨taken, spelled⟩ := cut_spelling first cs
  simp [Cut.lexeme, spelled]

/-- Lexemes of any texts that are spelled alike have the same fault. -/
theorem fault_of_spelling {l m : Lexeme} {ds : List Char} {line line' : Nat}
    (hl : l ∈ lexemesFrom line cs) (hm : m ∈ lexemesFrom line' ds)
    (h : l.token.spelling = m.token.spelling) : l.fault = m.fault := by
  rcases mem_lexemesFrom hl with ⟨n, rfl⟩ | ⟨c, cs, n, rfl⟩
  · rcases mem_lexemesFrom hm with ⟨n', rfl⟩ | ⟨d, ds, n', rfl⟩
    · rfl
    · exact absurd h.symm spelling_lexeme_ne
  · rcases mem_lexemesFrom hm with ⟨n', rfl⟩ | ⟨d, ds, n', rfl⟩
    · exact absurd h spelling_lexeme_ne
    · have same := congrArg Cut.fault (cut_of_spelling (String.ofList_injective h))
      exact same

end Scanner
end BantamSyntax
