import BantamSyntax.Proofs.Scanning.Normalization

/-!
# Cutting texts

Which lexemes a text has, said of the text alone, and that a scanner on a source that never fails
gives these.
-/
namespace BantamSyntax
namespace Scanner

def newlines (cs : List Char) : Nat :=
  cs.count '\n'

@[simp] theorem newlines_nil : newlines [] = 0 := rfl

theorem newlines_cons {c : Char} {cs : List Char} :
    newlines (c :: cs) = newlineAt (some c) + newlines cs := by
  by_cases h : c = '\n' <;> simp [newlines, newlineAt, h, Nat.add_comm]

theorem newlines_append {cs ds : List Char} : newlines (cs ++ ds) = newlines cs + newlines ds :=
  List.count_append

theorem newlines_toList (c : Option Char) : newlines c.toList = newlineAt c := by
  cases c with
  | none => rfl
  | some c => exact newlines_cons

/-! ## runs of characters -/

/-- The characters that `step` goes on over, the state after them, and the characters left. -/
def run {σ : Type} (step : σ → Char → Option σ) : σ → List Char → (List Char × σ) × List Char
  | state, [] => (([], state), [])
  | state, c :: cs => match step state c with
    | none => (([], state), c :: cs)
    | some next =>
      let more := run step next cs
      ((c :: more.1.1, more.1.2), more.2)

theorem run_append {σ : Type} (step : σ → Char → Option σ) (state : σ) (cs : List Char) :
    (run step state cs).1.1 ++ (run step state cs).2 = cs := by
  fun_induction run step state cs with
  | case1 => rfl
  | case2 => rfl
  | case3 state c cs next _ more ih => simpa [more] using ih

theorem run_while (p : Char → Bool) (cs : List Char) :
    run (fun _ c => if p c then some () else none) () cs =
      ((cs.takeWhile p, ()), cs.dropWhile p) := by
  induction cs with
  | nil => rfl
  | cons c cs ih => by_cases h : p c <;> simp [run, h, ih]

/-- A run is the same before whatever its last state does not go on over. -/
theorem run_stop {σ : Type} {step : σ → Char → Option σ} {state : σ} {cs rest : List Char}
    (stop : ∀ c ∈ rest.head?, step (run step state cs).1.2 c = none) :
    run step state ((run step state cs).1.1 ++ rest) = ((run step state cs).1, rest) := by
  induction cs generalizing state with
  | nil => cases rest <;> simp_all [run]
  | cons c cs ih =>
    cases hs : step state c with
    | none => cases rest <;> simp_all [run]
    | some next =>
      simp only [run, hs] at stop
      simp [run, hs, ih stop]

theorem run_self {σ : Type} (step : σ → Char → Option σ) (state : σ) (cs : List Char) :
    run step state (run step state cs).1.1 = ((run step state cs).1, []) := by
  simpa using @run_stop σ step state cs [] nofun

theorem takeWhile_append_stop {p : Char → Bool} {cs rest : List Char} (h : cs.all p = true)
    (stop : ∀ c ∈ rest.head?, p c = false) :
    (cs ++ rest).takeWhile p = cs ∧ (cs ++ rest).dropWhile p = rest := by
  rw [List.all_eq_true] at h
  rw [List.takeWhile_append_of_pos h, List.dropWhile_append_of_pos h]
  cases rest with
  | nil => simp
  | cons c rest => simp [stop c rfl]

/-! ## cuts -/

/-- The first lexeme of a text but for its line, and the text after it. -/
structure Cut where
  kind : TokenKind
  spelling : List Char
  fault : Option LexicalFault := none
  rest : List Char

namespace Cut

def lexeme (c : Cut) (line : Int) : Lexeme :=
  ⟨⟨c.kind, String.ofList c.spelling, line⟩, c.fault⟩

/-- A cut of the kind, unless its spelling has a fault. -/
def checked (kind : TokenKind) (fault : Option LexicalFault) (spelling rest : List Char) : Cut :=
  match fault with
  | none => ⟨kind, spelling, none, rest⟩
  | some fault => ⟨.error, spelling, some fault, rest⟩

theorem lexeme_checked {kind fault spelling rest line} :
    (checked kind fault spelling rest).lexeme line = Scanner.checked kind fault spelling line := by
  cases fault <;> rfl

@[simp] theorem spelling_checked {kind fault spelling rest} :
    (checked kind fault spelling rest).spelling = spelling := by
  cases fault <;> rfl

@[simp] theorem fault_checked {kind fault spelling rest} :
    (checked kind fault spelling rest).fault = fault := by
  cases fault <;> rfl

@[simp] theorem rest_checked {kind fault spelling rest} :
    (checked kind fault spelling rest).rest = rest := by
  cases fault <;> rfl

end Cut

/-- A string whose opening quote is not in `cs`. -/
def cutString (cs : List Char) : Cut :=
  let r := run StringState.step .body cs
  let spelling := '"' :: r.1.1
  if r.1.2 = .closed then .checked .string (LexicalFault.ofString? spelling) spelling r.2
  else ⟨.error, spelling, some .unterminatedString, r.2⟩

/-- A comment between delimiters whose first slash is not in `cs`. -/
def cutBlockComment (cs : List Char) : Cut :=
  let r := run CommentState.step (.body false) cs.tail
  let spelling := '/' :: '*' :: r.1.1
  if r.1.2 = .closed then ⟨.comment, spelling, none, r.2⟩
  else ⟨.error, spelling, some .unterminatedComment, r.2⟩

def cutOperator (first : Char) (cs : List Char) : Cut :=
  match Opening.of first cs.head? with
  | .single kind => ⟨kind, [first], none, cs⟩
  | .double kind => ⟨kind, first :: cs.head?.toList, none, cs.tail⟩
  | .lineComment => ⟨.comment, '/' :: cs.takeWhile (· ≠ '\n'), none, cs.dropWhile (· ≠ '\n')⟩
  | .blockComment => cutBlockComment cs
  | .fault fault => ⟨.error, [first], some fault, cs⟩

/-- The lexeme that begins with `first`, which is no blank. -/
def cut (first : Char) (cs : List Char) : Cut :=
  if first.isAlpha then
    let spelling := first :: cs.takeWhile isWordChar
    ⟨(TokenKind.reserved.lookup (String.ofList spelling)).getD .identifier, spelling, none,
      cs.dropWhile isWordChar⟩
  else if first.isDigit then
    let spelling := first :: cs.takeWhile Char.isDigit
    .checked .integer (LexicalFault.ofInteger? spelling) spelling (cs.dropWhile Char.isDigit)
  else if first = '"' then cutString cs
  else cutOperator first cs

theorem Opening.lookup_of_single {first : Char} {second : Option Char} {kind : TokenKind}
    (h : Opening.of first second = .single kind) :
    (TokenKind.punctuators ++ TokenKind.simpleOperators).lookup first = some kind := by
  unfold Opening.of at h
  repeat' split at h
  all_goals cases h
  assumption

theorem Opening.lookup_of_double {first : Char} {second : Option Char} {kind : TokenKind}
    (h : Opening.of first second = .double kind) :
    ∃ c, second = some c ∧ TokenKind.doubleOperators.lookup (first, c) = some kind := by
  unfold Opening.of at h
  split at h
  · cases h
    exact Option.bind_eq_some_iff.1 ‹_›
  · repeat' split at h
    all_goals cases h

theorem Opening.eq_of_lineComment {first : Char} {second : Option Char}
    (h : Opening.of first second = .lineComment) : first = '/' := by
  unfold Opening.of at h
  split at h
  · cases h
  split at h
  · exact (‹_ ∧ _›).1
  split at h
  · cases h
  split at h <;> cases h

theorem Opening.eq_of_blockComment {first : Char} {second : Option Char}
    (h : Opening.of first second = .blockComment) : first = '/' ∧ second = some '*' := by
  unfold Opening.of at h
  split at h
  · cases h
  split at h
  · cases h
  split at h
  · exact ‹_ ∧ _›
  split at h <;> cases h

theorem cutString_append (cs : List Char) :
    (cutString cs).spelling ++ (cutString cs).rest = '"' :: cs := by
  have h := run_append StringState.step .body cs
  unfold cutString
  dsimp only
  split <;> simp [h]

/-- No character is lost between a lexeme and the text after it. -/
theorem cut_append (first : Char) (cs : List Char) :
    (cut first cs).spelling ++ (cut first cs).rest = first :: cs := by
  unfold cut
  split
  · simp
  split
  · simp
  split
  · rename_i h
    rw [h, cutString_append]
  · unfold cutOperator
    split
    · rfl
    · cases cs <;> rfl
    · rename_i h
      simp [Opening.eq_of_lineComment h]
    · rename_i h
      obtain ⟨rfl, star⟩ := Opening.eq_of_blockComment h
      obtain ⟨rest, rfl⟩ := List.head?_eq_some_iff.1 star
      have := run_append CommentState.step (.body false) rest
      unfold cutBlockComment
      dsimp only [List.tail_cons]
      split <;> simp [this]
    · rfl

/-! ## scanners -/

/-- The scanner has `cs` before it, whose first character stands on `line`. -/
structure Faces (s : Scanner) (cs : List Char) (line : Nat) : Prop where
  lookahead : s.lookahead = cs.head?
  source : s.source.Gives cs.tail (line + newlineAt cs.head?)

theorem line_eq {s : Scanner} {cs : List Char} {line : Nat} (h : s.Faces cs line) :
    s.line = line := by
  unfold Scanner.line
  rw [h.lookahead, h.source.count]
  by_cases hn : cs.head? = some '\n' <;> simp [newlineAt, hn]

theorem advance_faces {s : Scanner} {cs : List Char} {line : Nat} (h : s.Faces cs line) :
    ∃ t, advance s = .ok cs.head? t ∧ t.Faces cs.tail (line + newlineAt cs.head?) := by
  obtain ⟨source, hn, hs⟩ := Source.next_gives h.source
  exact ⟨⟨source, cs.tail.head?⟩, by simp [advance, hn, h.lookahead], rfl, hs⟩

theorem collect_of_stop {σ : Type} {step : σ → Char → Option σ} {state : σ} {s : Scanner}
    (h : s.lookahead.bind (step state) = none) : collect step state s = .ok ([], state) s := by
  rw [collect]
  split <;> simp_all

theorem collect_of_step {σ : Type} {step : σ → Char → Option σ} {state next last : σ}
    {s t u : Scanner} {c : Option Char} {cs : List Char}
    (h : s.lookahead.bind (step state) = some next) (ha : advance s = .ok c t)
    (hc : collect step next t = .ok (cs, last) u) :
    collect step state s = .ok (c.toList ++ cs, last) u := by
  rw [collect]
  split
  · simp_all
  split <;> simp_all

theorem collect_faces {σ : Type} (step : σ → Char → Option σ) (state : σ) {s : Scanner}
    {cs : List Char} {line : Nat} (h : s.Faces cs line) :
    ∃ t, collect step state s = .ok (run step state cs).1 t ∧
      t.Faces (run step state cs).2 (line + newlines (run step state cs).1.1) := by
  induction cs generalizing state s line with
  | nil =>
    exact ⟨s, collect_of_stop (by simp [h.lookahead]), h⟩
  | cons c cs ih =>
    cases hs : step state c with
    | none => exact ⟨s, by simpa [run, hs] using collect_of_stop (by simp [h.lookahead, hs]),
        by simpa [run, hs] using h⟩
    | some next =>
      obtain ⟨t, ha, ht⟩ := advance_faces h
      obtain ⟨u, hu, hf⟩ := ih next ht
      refine ⟨u, ?_, by simpa [run, hs, newlines_cons, Nat.add_assoc] using hf⟩
      simpa [run, hs] using collect_of_step (by simp [h.lookahead, hs]) ha hu

theorem collectWhile_faces {p : Char → Bool} {s : Scanner} {cs : List Char} {line : Nat}
    (h : s.Faces cs line) :
    ∃ t, collectWhile p s = .ok (cs.takeWhile p) t ∧
      t.Faces (cs.dropWhile p) (line + newlines (cs.takeWhile p)) := by
  obtain ⟨t, hc, ht⟩ := collect_faces (fun _ c => if p c then some () else none) () h
  rw [run_while] at hc ht
  exact ⟨t, bind_eq_ok.2 ⟨_, t, hc, rfl⟩, ht⟩

/-! ## lexemes -/

theorem string_faces {s : Scanner} {cs : List Char} {line : Nat} {start : Int}
    (h : s.Faces cs line) :
    ∃ t, string start s = .ok ((cutString cs).lexeme start) t ∧
      t.Faces (cutString cs).rest (line + newlines (cutString cs).spelling.tail) := by
  obtain ⟨t, hc, ht⟩ := collect_faces StringState.step .body h
  refine ⟨t, bind_eq_ok.2 ⟨_, t, hc, ?_⟩, ?_⟩
  all_goals
    unfold cutString
    dsimp only
    split
  · rw [Cut.lexeme_checked]
    rfl
  · rfl
  · simpa using ht
  · exact ht

theorem blockComment_faces {s : Scanner} {cs : List Char} {line : Nat} {start : Int}
    (h : s.Faces cs line) (star : cs.head? = some '*') :
    ∃ t, blockComment start s = .ok ((cutBlockComment cs).lexeme start) t ∧
      t.Faces (cutBlockComment cs).rest (line + newlines (cutBlockComment cs).spelling.tail) := by
  obtain ⟨t, ha, ht⟩ := advance_faces h
  obtain ⟨u, hc, hu⟩ := collect_faces CommentState.step (.body false) ht
  refine ⟨u, bind_eq_ok.2 ⟨_, t, ha, bind_eq_ok.2 ⟨_, u, hc, ?_⟩⟩, ?_⟩
  all_goals
    unfold cutBlockComment
    dsimp only
    split
  · rfl
  · rfl
  · simpa [star, newlines_cons, newlineAt] using hu
  · simpa [star, newlines_cons, newlineAt] using hu

theorem operator_faces {s : Scanner} {first : Char} {cs : List Char} {line : Nat} {start : Int}
    (h : s.Faces cs line) :
    ∃ t, operator first start s = .ok ((cutOperator first cs).lexeme start) t ∧
      t.Faces (cutOperator first cs).rest
        (line + newlines (cutOperator first cs).spelling.tail) := by
  have peeked : operator first start s = (match Opening.of first cs.head? with
      | .single kind => pure (lexeme kind [first] start)
      | .double kind => do return lexeme kind (first :: (← advance).toList) start
      | .lineComment => lineComment start
      | .blockComment => blockComment start
      | .fault fault => pure (faulty fault [first] start) : ScannerM Lexeme) s := by
    rw [← h.lookahead]
    rfl
  rw [peeked]
  unfold cutOperator
  cases ho : Opening.of first cs.head? with
  | single kind => exact ⟨s, rfl, h⟩
  | double kind =>
    obtain ⟨t, ha, ht⟩ := advance_faces h
    refine ⟨t, bind_eq_ok.2 ⟨_, t, ha, rfl⟩, ?_⟩
    cases cs with
    | nil => simpa using ht
    | cons c cs => simpa [newlines_cons] using ht
  | lineComment =>
    obtain ⟨t, hc, ht⟩ := collectWhile_faces (p := (· ≠ '\n')) h
    exact ⟨t, bind_eq_ok.2 ⟨_, t, hc, rfl⟩, ht⟩
  | blockComment => exact blockComment_faces h (Opening.eq_of_blockComment ho).2
  | fault fault => exact ⟨s, rfl, h⟩

theorem lexemeFrom_faces {s : Scanner} {first : Char} {cs : List Char} {line : Nat} (start : Int)
    (h : s.Faces cs line) :
    ∃ t, lexemeFrom first start s = .ok ((cut first cs).lexeme start) t ∧
      t.Faces (cut first cs).rest (line + newlines (cut first cs).spelling.tail) := by
  unfold lexemeFrom cut
  split
  · obtain ⟨t, hc, ht⟩ := collectWhile_faces (p := isWordChar) h
    exact ⟨t, bind_eq_ok.2 ⟨_, t, hc, rfl⟩, ht⟩
  split
  · obtain ⟨t, hc, ht⟩ := collectWhile_faces (p := Char.isDigit) h
    refine ⟨t, bind_eq_ok.2 ⟨_, t, hc, ?_⟩, by simpa using ht⟩
    rw [Cut.lexeme_checked]
    rfl
  split
  · exact string_faces h
  · exact operator_faces h

end Scanner
end BantamSyntax
