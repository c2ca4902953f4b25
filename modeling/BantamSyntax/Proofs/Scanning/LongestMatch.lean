import BantamSyntax.Proofs.Scanning.Beginnings

/-!
# Longest match

Words, numbers, operators and punctuators go on for as long as the text allows, and what begins none
of them is an error of one character.
-/
namespace BantamSyntax

/-! ## units -/

namespace TokenKind

/-- The spellings of punctuators and operators, with their kinds. -/
def symbols : List (List Char × TokenKind) :=
  [(['\x7b'], leftBrace), (['\x7d'], rightBrace), (['('], leftParen), ([')'], rightParen),
    (['.'], dot), ([';'], semicolon), ([':'], colon), ([','], comma),
    (['='], assign), (['+'], additive), (['-'], additive), (['*'], multiplicative),
    (['/'], multiplicative), (['%'], multiplicative), (['!'], negation), (['<'], comparison),
    (['>'], comparison), (['=', '='], comparison), (['!', '='], comparison),
    (['<', '='], comparison), (['>', '='], comparison), (['+', '+'], increment),
    (['-', '-'], decrement), (['&', '&'], logical), (['|', '|'], logical)]

theorem symbols_eq : symbols = (punctuators ++ simpleOperators).map (fun e => ([e.1], e.2)) ++
    doubleOperators.map (fun e => ([e.1.1, e.1.2], e.2)) := rfl

variable {c d : Char} {cs : List Char} {k : TokenKind}

theorem mem_symbols : (cs, k) ∈ symbols ↔
    (∃ c, cs = [c] ∧ (c, k) ∈ punctuators ++ simpleOperators) ∨
      ∃ c d, cs = [c, d] ∧ ((c, d), k) ∈ doubleOperators := by
  rw [symbols_eq, List.mem_append, List.mem_map, List.mem_map]
  simp only [Prod.mk.injEq, Prod.exists]
  grind

theorem symbol_begins (h : (c :: cs, k) ∈ symbols) : c.isAlpha = false ∧ c.isDigit = false := by
  have table : symbols.all (fun e => e.1.all fun c => !c.isAlpha && !c.isDigit) = true := by decide
  have chars := List.all_eq_true.1 (List.all_eq_true.1 table _ h)
  simpa using chars c List.mem_cons_self

end TokenKind

/-- Strings and comments, also such as lack their end, and the token at the end of the text. -/
def Token.IsDelimited (t : Token) : Prop :=
  t.kind ∈ [.string, .comment, .endOfFile] ∨
    t.kind = .error ∧ (['"'] <+: t.spelling.toList ∨ ['/', '*'] <+: t.spelling.toList)

namespace Scanner

/-- A letter, and letters, digits and underscores after it. -/
def IsWord (s : List Char) : Prop :=
  ∃ c cs, s = c :: cs ∧ c.isAlpha = true ∧
    ∀ d ∈ cs, d.isAlpha = true ∨ d.isDigit = true ∨ d = '_'

def IsNumber (s : List Char) : Prop :=
  s ≠ [] ∧ ∀ c ∈ s, c.isDigit = true

def IsSymbol (s : List Char) : Prop :=
  ∃ k, (s, k) ∈ TokenKind.symbols

/-- What a token can be that is no string, no comment and no error of one character. -/
inductive IsUnit (s : List Char) : Prop where
  | word (h : IsWord s)
  | number (h : IsNumber s)
  | symbol (h : IsSymbol s)

variable {c : Char} {s cs : List Char} {k : TokenKind}

theorem IsUnit.ne_nil (h : IsUnit s) : s ≠ [] := by
  rintro rfl
  rcases h with ⟨_, _, ⟨⟩, -⟩ | ⟨ne, -⟩ | ⟨k, h⟩
  · exact ne rfl
  · rcases TokenKind.mem_symbols.1 h with ⟨_, ⟨⟩, -⟩ | ⟨_, _, ⟨⟩, -⟩

theorem isWord_cons : IsWord (c :: cs) ↔ c.isAlpha = true ∧ cs.all isWordChar = true := by
  simp only [IsWord, List.cons.injEq, isWordChar, List.all_eq_true, Bool.or_eq_true,
    decide_eq_true_eq, or_assoc]
  grind

theorem isNumber_cons : IsNumber (c :: cs) ↔ c.isDigit = true ∧ cs.all Char.isDigit = true := by
  simp [IsNumber]

/-- The first character of a unit tells whether it is a symbol. -/
theorem IsUnit.isSymbol (h : IsUnit (c :: cs)) (alpha : c.isAlpha ≠ true)
    (digit : c.isDigit ≠ true) : IsSymbol (c :: cs) := by
  rcases h with word | number | symbol
  · exact absurd (isWord_cons.1 word).1 alpha
  · exact absurd (isNumber_cons.1 number).1 digit
  · exact symbol

/-! ## longest units -/

/-- The text begins with `s`, and with no longer unit. -/
structure Longest (r s : List Char) : Prop where
  unit : IsUnit s
  begins : s <+: r
  most : ∀ s', IsUnit s' → s' <+: r → s'.length ≤ s.length

/-- The token is what longest match makes of a text that begins with it. -/
structure LongestMatch (r : List Char) (t : Token) : Prop where
  spelled : Longest r t.spelling.toList ∨
    (∀ s, IsUnit s → ¬s <+: r) ∧ (∃ c, r.head? = some c ∧ t.spelling.toList = [c]) ∧ t.kind = .error
  word : IsWord t.spelling.toList → t.kind = (TokenKind.reserved.lookup t.spelling).getD .identifier
  symbol : IsSymbol t.spelling.toList → (t.spelling.toList, t.kind) ∈ TokenKind.symbols
  slash : t.spelling = "/" → ∀ c ∈ r[1]?, c ≠ '/' ∧ c ≠ '*'

theorem length_le_takeWhile {p : Char → Bool} (begins : s <+: cs) (all : s.all p = true) :
    s.length ≤ (cs.takeWhile p).length := by
  obtain ⟨t, rfl⟩ := begins
  rw [List.takeWhile_append_of_pos (List.all_eq_true.1 all)]
  simp

theorem longest_word (alpha : c.isAlpha = true) :
    Longest (c :: cs) (c :: cs.takeWhile isWordChar) where
  unit := .word (isWord_cons.2 ⟨alpha, List.all_takeWhile⟩)
  begins := List.cons_prefix_cons.2 ⟨rfl, List.takeWhile_prefix _⟩
  most s unit begins := by
    obtain ⟨d, ds, rfl⟩ := List.exists_cons_of_ne_nil unit.ne_nil
    obtain ⟨rfl, tail⟩ := List.cons_prefix_cons.1 begins
    have chars : ds.all isWordChar = true := by
      rcases unit with word | number | ⟨k, symbol⟩
      · exact (isWord_cons.1 word).2
      · exact List.all_eq_true.2 fun e he => by
          simp [isWordChar, List.all_eq_true.1 (isNumber_cons.1 number).2 e he]
      · exact absurd alpha (by simp [(TokenKind.symbol_begins symbol).1])
    exact Nat.succ_le_succ (length_le_takeWhile tail chars)

theorem longest_number (alpha : c.isAlpha ≠ true) (digit : c.isDigit = true) :
    Longest (c :: cs) (c :: cs.takeWhile Char.isDigit) where
  unit := .number (isNumber_cons.2 ⟨digit, List.all_takeWhile⟩)
  begins := List.cons_prefix_cons.2 ⟨rfl, List.takeWhile_prefix _⟩
  most s unit begins := by
    obtain ⟨d, ds, rfl⟩ := List.exists_cons_of_ne_nil unit.ne_nil
    obtain ⟨rfl, tail⟩ := List.cons_prefix_cons.1 begins
    rcases unit with word | number | ⟨k, symbol⟩
    · exact absurd (isWord_cons.1 word).1 alpha
    · exact Nat.succ_le_succ (length_le_takeWhile tail (isNumber_cons.1 number).2)
    · exact absurd digit (by simp [(TokenKind.symbol_begins symbol).2])

/-! ## symbols -/

open TokenKind in
/-- A symbol that begins a text is its first character or its first two. -/
theorem symbol_begins_text (symbol : IsSymbol s) (begins : s <+: c :: cs) :
    (s = [c] ∧ ∃ k, (c, k) ∈ punctuators ++ simpleOperators) ∨
      ∃ d k, s = [c, d] ∧ cs.head? = some d ∧ ((c, d), k) ∈ doubleOperators := by
  obtain ⟨k, symbol⟩ := symbol
  rcases mem_symbols.1 symbol with ⟨e, rfl, single⟩ | ⟨e, d, rfl, double⟩
  · obtain ⟨rfl, -⟩ := List.cons_prefix_cons.1 begins
    exact .inl ⟨rfl, k, single⟩
  · obtain ⟨rfl, second⟩ := List.cons_prefix_cons.1 begins
    obtain ⟨rest, rfl⟩ := second
    exact .inr ⟨d, k, rfl, rfl, double⟩

theorem lookup_ne_none {α β : Type} [BEq α] [LawfulBEq α] {l : List (α × β)} {a : α} {b : β}
    (h : (a, b) ∈ l) : l.lookup a ≠ none := by
  rw [Ne, List.lookup_eq_none_iff]
  intro none
  simpa using none _ h

namespace Opening

variable {first : Char} {second : Option Char}

theorem lookup_double_eq_none (h : ∀ k, of first second ≠ .double k) :
    (second.bind fun c => TokenKind.doubleOperators.lookup (first, c)) = none := by
  rw [Option.eq_none_iff_forall_ne_some]
  exact fun k hk => h k (by rw [of, hk])

theorem lookup_of_fault {f : LexicalFault} (h : of first second = .fault f) :
    (TokenKind.punctuators ++ TokenKind.simpleOperators).lookup first = none := by
  unfold of at h
  repeat' split at h
  all_goals cases h
  all_goals assumption

theorem no_comment_of_single (h : of '/' second = .single k) :
    ∀ c ∈ second, c ≠ '/' ∧ c ≠ '*' := by
  rintro c rfl
  constructor
  all_goals
    rintro rfl
    cases h

end Opening

/-- Without an operator of two characters, a unit that begins the text is its first character. -/
theorem eq_singleton_of_unit (alpha : c.isAlpha ≠ true) (digit : c.isDigit ≠ true)
    (h : ∀ k, Opening.of c cs.head? ≠ .double k) (unit : IsUnit s) (begins : s <+: c :: cs) :
    s = [c] ∧ ∃ k, (c, k) ∈ TokenKind.punctuators ++ TokenKind.simpleOperators := by
  obtain ⟨d, ds, rfl⟩ := List.exists_cons_of_ne_nil unit.ne_nil
  obtain ⟨rfl, -⟩ := List.cons_prefix_cons.1 begins
  rcases symbol_begins_text (unit.isSymbol alpha digit) begins with single | ⟨e, k, -, second, double⟩
  · exact single
  · have none := Opening.lookup_double_eq_none h
    rw [second] at none
    exact absurd none (lookup_ne_none double)

theorem longest_single (alpha : c.isAlpha ≠ true) (digit : c.isDigit ≠ true)
    (opening : Opening.of c cs.head? = .single k) :
    ([c], k) ∈ TokenKind.symbols ∧ Longest (c :: cs) [c] := by
  have symbol : ([c], k) ∈ TokenKind.symbols :=
    TokenKind.mem_symbols.2 (.inl ⟨c, rfl, mem_of_lookup (Opening.lookup_of_single opening)⟩)
  refine ⟨symbol, .symbol ⟨k, symbol⟩, ⟨cs, rfl⟩, fun s unit begins => ?_⟩
  obtain ⟨rfl, -⟩ := eq_singleton_of_unit alpha digit (by simp [opening]) unit begins
  exact Nat.le_refl _

theorem longest_double (alpha : c.isAlpha ≠ true) (digit : c.isDigit ≠ true)
    (opening : Opening.of c cs.head? = .double k) :
    ∃ d, cs.head? = some d ∧ ([c, d], k) ∈ TokenKind.symbols ∧ Longest (c :: cs) [c, d] := by
  obtain ⟨d, second, double⟩ := Opening.lookup_of_double opening
  obtain ⟨rest, rfl⟩ := List.head?_eq_some_iff.1 second
  have symbol : ([c, d], k) ∈ TokenKind.symbols :=
    TokenKind.mem_symbols.2 (.inr ⟨c, d, rfl, mem_of_lookup double⟩)
  refine ⟨d, rfl, symbol, .symbol ⟨k, symbol⟩, ⟨rest, rfl⟩, fun s unit begins => ?_⟩
  obtain ⟨e, es, rfl⟩ := List.exists_cons_of_ne_nil unit.ne_nil
  obtain ⟨rfl, -⟩ := List.cons_prefix_cons.1 begins
  rcases symbol_begins_text (unit.isSymbol alpha digit) begins with ⟨eq, -⟩ | ⟨_, _, eq, -⟩
  all_goals simp [eq]

/-- A fault of an operator is that no unit begins there. -/
theorem no_unit_of_fault {f : LexicalFault} (alpha : c.isAlpha ≠ true) (digit : c.isDigit ≠ true)
    (opening : Opening.of c cs.head? = .fault f) (unit : IsUnit s) : ¬s <+: c :: cs := by
  intro begins
  obtain ⟨-, k, known⟩ := eq_singleton_of_unit alpha digit (by simp [opening]) unit begins
  exact lookup_ne_none known (Opening.lookup_of_fault opening)

/-! ## tokens -/

variable {r : List Char} {line : Int}

theorem LongestMatch.ofList
    (spelled : Longest r s ∨ (∀ s, IsUnit s → ¬s <+: r) ∧ (∃ c, r.head? = some c ∧ s = [c]) ∧ k = .error)
    (word : IsWord s → k = (TokenKind.reserved.lookup (String.ofList s)).getD .identifier)
    (symbol : IsSymbol s → (s, k) ∈ TokenKind.symbols)
    (slash : s = ['/'] → ∀ c ∈ r[1]?, c ≠ '/' ∧ c ≠ '*') :
    LongestMatch r ⟨k, String.ofList s, line⟩ where
  spelled := by simpa only [String.toList_ofList] using spelled
  word := by simpa only [String.toList_ofList] using word
  symbol := by simpa only [String.toList_ofList] using symbol
  slash h := slash (by simpa using congrArg String.toList h)

theorem longestMatch_word (alpha : c.isAlpha = true) :
    LongestMatch (c :: cs) ((cut c cs).lexeme line).token := by
  simp only [cut, if_pos alpha, Cut.lexeme]
  refine .ofList (.inl (longest_word alpha)) (fun _ => rfl) ?_ ?_
  · rintro ⟨k, symbol⟩
    exact absurd alpha (by simp [(TokenKind.symbol_begins symbol).1])
  · intro slash
    rw [(List.cons.inj slash).1] at alpha
    cases alpha

theorem longestMatch_number (alpha : c.isAlpha ≠ true) (digit : c.isDigit = true) :
    LongestMatch (c :: cs) ((cut c cs).lexeme line).token := by
  have spelled : (cut c cs).spelling = c :: cs.takeWhile Char.isDigit := by
    simp only [cut, if_neg alpha, if_pos digit, Cut.spelling_checked]
  simp only [Cut.lexeme, spelled]
  refine .ofList (.inl (longest_number alpha digit)) ?_ ?_ ?_
  · exact fun word => absurd (isWord_cons.1 word).1 alpha
  · rintro ⟨k, symbol⟩
    exact absurd digit (by simp [(TokenKind.symbol_begins symbol).2])
  · intro slash
    rw [(List.cons.inj slash).1] at digit
    cases digit

theorem isDelimited_cutString : ((cutString cs).lexeme line).token.IsDelimited := by
  have begins : ['"'] <+: ((cutString cs).lexeme line).token.spelling.toList := by
    rw [Cut.lexeme, String.toList_ofList, spelling_cutString]
    exact ⟨_, rfl⟩
  rcases kind_cutString_eq cs with string | error
  · exact .inl (by simp [Cut.lexeme, string])
  · exact .inr ⟨error, .inl begins⟩

theorem isDelimited_cutBlockComment :
    ((cutBlockComment cs).lexeme line).token.IsDelimited := by
  have begins : ['/', '*'] <+: ((cutBlockComment cs).lexeme line).token.spelling.toList := by
    rw [Cut.lexeme, String.toList_ofList, spelling_cutBlockComment]
    exact ⟨_, rfl⟩
  by_cases ended : (run CommentState.step (.body false) cs.tail).1.2 = .closed
  · have comment : (cutBlockComment cs).kind = .comment := by simp [cutBlockComment, ended]
    exact .inl (by simp [Cut.lexeme, comment])
  · have error : (cutBlockComment cs).kind = .error := by simp [cutBlockComment, ended]
    exact .inr ⟨error, .inr begins⟩

theorem longestMatch_operator (alpha : c.isAlpha ≠ true) (digit : c.isDigit ≠ true)
    (shown : ¬((cutOperator c cs).lexeme line).token.IsDelimited) :
    LongestMatch (c :: cs) ((cutOperator c cs).lexeme line).token := by
  have no_word {s : List Char} : ¬IsWord (c :: s) := fun word => alpha (isWord_cons.1 word).1
  unfold cutOperator at shown ⊢
  cases opening : Opening.of c cs.head? with
  | single kind =>
    obtain ⟨symbol, longest⟩ := longest_single alpha digit opening
    refine .ofList (.inl longest) (absurd · no_word) (fun _ => symbol) fun slash d second => ?_
    rw [(List.cons.inj slash).1] at opening
    exact Opening.no_comment_of_single opening d (List.head?_eq_getElem?.trans second)
  | double kind =>
    obtain ⟨d, second, symbol, longest⟩ := longest_double alpha digit opening
    rw [second]
    exact .ofList (.inl longest) (absurd · no_word) (fun _ => symbol) nofun
  | lineComment =>
    rw [opening] at shown
    exact absurd (.inl (by simp [Cut.lexeme])) shown
  | blockComment =>
    rw [opening] at shown
    exact absurd isDelimited_cutBlockComment shown
  | fault f =>
    have never {s : List Char} (unit : IsUnit s) := no_unit_of_fault alpha digit opening unit
    refine .ofList (.inr ⟨fun _ => never, ⟨c, rfl, rfl⟩, rfl⟩) (absurd · no_word) ?_ ?_
    · exact fun symbol => absurd ⟨cs, rfl⟩ (never (.symbol symbol))
    · rintro ⟨⟩
      have known : IsSymbol ['/'] := ⟨.multiplicative, by decide⟩
      exact absurd ⟨cs, rfl⟩ (never (.symbol known))

/-- What is cut from a text is its longest match, or a string or a comment. -/
theorem longestMatch_cut (shown : ¬((cut c cs).lexeme line).token.IsDelimited) :
    LongestMatch (c :: cs) ((cut c cs).lexeme line).token := by
  by_cases alpha : c.isAlpha = true
  · exact longestMatch_word alpha
  by_cases digit : c.isDigit = true
  · exact longestMatch_number alpha digit
  by_cases quote : c = '"'
  · rw [cut, if_neg alpha, if_neg digit, if_pos quote] at shown
    exact absurd isDelimited_cutString shown
  · have operator : cut c cs = cutOperator c cs := by
      rw [cut, if_neg alpha, if_neg digit, if_neg quote]
    rw [operator] at shown ⊢
    exact longestMatch_operator alpha digit shown

/-- Where a token of a text stands, it is cut. -/
theorem cut_of_tiled {gaps : List (List Char)} {ts : List Token} {line : Nat}
    (size : gaps.length = ts.length) (blank : ∀ gap ∈ gaps, ∀ c ∈ gap, isBlank c = true)
    (given : (lexemesFrom line (weave gaps ts)).map (·.token) = ts) {i : Nat} {gap : List Char}
    {t : Token} (hg : gaps[i]? = some gap) (ht : ts[i]? = some t) (more : t.kind ≠ .endOfFile)
    (text : weave gaps ts = weave (gaps.take i) (ts.take i) ++ gap ++ r) :
    ∃ c cs n, r = c :: cs ∧ t = ((cut c cs).lexeme n).token := by
  induction ts generalizing gaps line i with
  | nil => cases ht
  | cons u ts ih =>
    obtain ⟨first, gaps, rfl⟩ := List.exists_cons_of_length_eq_add_one size
    rw [List.forall_mem_cons] at blank
    rw [weave_cons, List.append_assoc, lexemesFrom_gap blank.1] at given
    by_cases last : u.kind = .endOfFile
    · rcases lexemesFrom_begins _ (u.spelling.toList ++ weave gaps ts) with ⟨n, ended⟩ |
        ⟨c, ds, n, ls, -, -, cutting⟩
      · rw [ended] at given
        obtain ⟨-, rfl⟩ := List.cons.inj given
        cases i with
        | zero =>
          cases ht
          exact absurd last more
        | succ i => cases ht
      · rw [cutting] at given
        obtain ⟨rfl, -⟩ := List.cons.inj given
        exact absurd last (cut_regular c ds).kind
    · have begun : u :: ts <+: (lexemesFrom (line + newlines first)
          (u.spelling.toList ++ weave gaps ts)).map (·.token) :=
        ⟨[], by rw [List.append_nil, given]⟩
      obtain ⟨c, taken, spelled, visible, cutting, rest⟩ := cut_of_begins begun last
      rw [spelled, List.cons_append, lexemesFrom_cut visible, rest] at given
      obtain ⟨here, later⟩ := List.cons.inj given
      cases i with
      | zero =>
        cases ht
        cases hg
        have onward : r = c :: (taken ++ weave gaps ts) := by
          simpa [spelled] using text.symm
        exact ⟨c, _, _, onward, here.symm⟩
      | succ i =>
        have inner : weave gaps ts = weave (gaps.take i) (ts.take i) ++ gap ++ r := by
          simpa [List.append_assoc] using text
        exact ih (Nat.succ.inj size) blank.2 later hg ht inner

/-- The tokens of a text cover it, and each of them but strings and comments is the longest match
where it stands. -/
theorem tokenize_longest (text name : String) :
    let found := (ofSource (.ofText text name)).tokenize.1
    let ts := found.lexemes.map (·.token)
    found.failure = none ∧ (∃ gaps, Tiles 1 (normalize text.toList) gaps ts) ∧
      ∀ gaps, Tiles 1 (normalize text.toList) gaps ts →
        ∀ i gap t r, gaps[i]? = some gap → ts[i]? = some t →
          normalize text.toList = weave (gaps.take i) (ts.take i) ++ gap ++ r →
          ¬t.IsDelimited → LongestMatch r t := by
  intro found ts
  have faces := ofSource_faces (Source.ofText_gives text name)
  have all : found = ⟨lexemesFrom 1 (normalize text.toList), none⟩ := by
    simp only [found, tokenize_faces faces]
    rw [lexemesFrom_blank rfl]
    rfl
  have tokens : ts = (lexemesFrom 1 (normalize text.toList)).map (·.token) := by
    simp only [ts, all]
  refine ⟨by rw [all], ?_, ?_⟩
  · rw [tokens]
    exact lexemesFrom_tiles 1 _ (return_notMem_normalize _)
  · intro gaps tiles i gap t r hg ht onward shown
    have more : t.kind ≠ .endOfFile := fun last => shown (.inl (by simp [last]))
    have blank : ∀ gap ∈ gaps, ∀ c ∈ gap, isBlank c = true :=
      fun gap hg => isBlank_of_tiled (tiles.blank gap hg)
    have given : (lexemesFrom 1 (weave gaps ts)).map (·.token) = ts := by
      rw [tiles.text, ← tokens]
    obtain ⟨c, cs, n, rfl, rfl⟩ :=
      cut_of_tiled tiles.size blank given hg ht more (tiles.text.trans onward)
    exact longestMatch_cut shown

end Scanner
end BantamSyntax
