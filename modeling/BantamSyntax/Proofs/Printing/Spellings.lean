import BantamSyntax.Proofs.Printing.Leaves
import BantamSyntax.Proofs.Printing.LineEnds
import BantamSyntax.Proofs.Scanning.Reconstruction

/-!
# Spellings

The kinds of tokens that are spelled in one way, or in a few. A token of a text that is put on a
line of its own is scanned as the same token again.
-/
namespace BantamSyntax

open Grammar Scanner

/-- Words, punctuators and operators, as they are spelled. -/
def Symbol.fixed : List Symbol :=
  TokenKind.reserved.map Prod.swap ++
    (TokenKind.punctuators ++ TokenKind.simpleOperators).map (fun e => (e.2, String.singleton e.1))
    ++ TokenKind.doubleOperators.map (fun e => (e.2, String.ofList [e.1.1, e.1.2]))

/-- The kinds of tokens that have spellings of their own. -/
def TokenKind.isFree (k : TokenKind) : Bool :=
  k ∈ [identifier, integer, string, comment, error, endOfFile]

namespace Token

/-- The token has a spelling of its own, or one that is fixed. -/
def Tabled (t : Token) : Prop :=
  t.kind.isFree = true ∨ t.symbol ∈ Symbol.fixed

variable {t : Token}

theorem Tabled.mem (h : t.Tabled) (closed : t.kind.isFree = false) : t.symbol ∈ Symbol.fixed :=
  h.resolve_left (by simp [closed])

/-- A kind with one spelling tells the symbol. -/
theorem Tabled.symbol_eq {s : Symbol} (h : t.Tabled) (hk : t.kind = s.1)
    (only : s.1.isFree = false ∧ ∀ s' ∈ Symbol.fixed, s'.1 = s.1 → s' = s) : t.symbol = s :=
  only.2 _ (h.mem (hk ▸ only.1)) hk

theorem Tabled.ofBinary {l : Level} {op : BinaryOp} (h : t.Tabled) (hl : l ∈ Level.all)
    (hop : l.op? t = some op) : t.symbol = .ofBinary op := by
  have tabled : ∀ l ∈ Level.all, ∀ e ∈ l.operators, ∀ s ∈ Symbol.fixed,
      s.1.isOperator = true → s.2 = e.1 → s = .ofBinary e.2 := by decide
  obtain ⟨operator, -⟩ := Level.spelling_of_op? hop
  rw [Level.op?, if_pos operator] at hop
  refine tabled l hl _ (mem_of_lookup hop) _ (h.mem ?_) operator rfl
  revert operator
  cases t.kind <;> decide

theorem Tabled.ofSign {op : UnaryOp} (h : t.Tabled) (hop : signOp? t = some op) :
    t.symbol = .ofUnary op ∧ op.side = .before := by
  unfold signOp? at hop
  split at hop
  · rename_i hk
    split at hop
    · cases hop
      rename_i hs
      exact ⟨Prod.ext hk hs, rfl⟩
    · cases hop
  all_goals
    cases hop
    try exact ⟨h.symbol_eq ‹_› (by decide), rfl⟩

theorem Tabled.ofSuffix {op : UnaryOp} (h : t.Tabled) (hop : suffixOp? t.kind = some op) :
    t.symbol = .ofUnary op ∧ op.side = .after := by
  unfold suffixOp? at hop
  split at hop
  all_goals
    cases hop
    try exact ⟨h.symbol_eq ‹_› (by decide), rfl⟩

theorem symbol_of_constantKind? {k : ConstantKind} (h : constantKind? t.kind = some k) :
    t.symbol = .ofConstant k t.spelling := by
  unfold constantKind? at h
  split at h
  all_goals
    cases h
    try exact Prod.ext ‹_› rfl

end Token

namespace Scanner

theorem tabled_word (word : String) (line : Int) :
    Token.Tabled ⟨(TokenKind.reserved.lookup word).getD .identifier, word, line⟩ := by
  cases h : TokenKind.reserved.lookup word with
  | none => exact .inl rfl
  | some kind =>
    refine .inr (List.mem_append_left _ (List.mem_append_left _ ?_))
    exact List.mem_map.2 ⟨_, mem_of_lookup h, rfl⟩

theorem tabled_checked {kind : TokenKind} {fault : Option LexicalFault}
    {spelling rest : List Char} {line : Int} (h : kind.isFree = true) :
    ((Cut.checked kind fault spelling rest).lexeme line).token.Tabled := by
  cases fault with
  | none => exact .inl h
  | some fault => exact .inl rfl

theorem tabled_cutOperator (first : Char) (cs : List Char) (line : Int) :
    ((cutOperator first cs).lexeme line).token.Tabled := by
  unfold cutOperator
  split
  · have single := mem_of_lookup (Opening.lookup_of_single ‹_›)
    refine .inr (List.mem_append_left _ (List.mem_append_right _ ?_))
    exact List.mem_map.2 ⟨_, single, rfl⟩
  · obtain ⟨second, hs, h⟩ := Opening.lookup_of_double ‹_›
    refine .inr (List.mem_append_right _ (List.mem_map.2 ⟨_, mem_of_lookup h, ?_⟩))
    rw [hs]
    rfl
  · exact .inl rfl
  · unfold cutBlockComment
    dsimp only
    split <;> exact .inl rfl
  · exact .inl rfl

theorem tabled_cut (first : Char) (cs : List Char) (line : Int) :
    ((cut first cs).lexeme line).token.Tabled := by
  unfold cut
  split
  · exact tabled_word _ line
  split
  · exact tabled_checked rfl
  split
  · unfold cutString
    dsimp only
    split
    · exact tabled_checked rfl
    · exact .inl rfl
  · exact tabled_cutOperator first cs line

theorem tabled_lexemesFrom {line : Nat} {cs : List Char} {l : Lexeme}
    (hl : l ∈ lexemesFrom line cs) : l.token.Tabled := by
  fun_induction lexemesFrom line cs with
  | case1 line =>
    cases List.mem_singleton.1 hl
    exact .inl rfl
  | case2 line c cs hb ih => exact ih hl
  | case3 line c cs hb ih =>
    rcases List.mem_cons.1 hl with rfl | hl
    · exact tabled_cut c cs line
    · exact ih hl

end Scanner

theorem Grammar.tabled_tokens {text : String} {t : Token} (h : t ∈ tokens text) : t.Tabled := by
  obtain ⟨l, hl, rfl⟩ := List.mem_map.1 (List.mem_filter.1 h).1
  rw [tokenize_ofText] at hl
  exact tabled_lexemesFrom hl

theorem Grammar.symbol_ending {text : String} {t : Token} (h : t ∈ tokens text)
    (ended : t.kind = .endOfFile) : t.symbol = (.endOfFile, "") := by
  obtain ⟨l, hl, rfl⟩ := List.mem_map.1 (List.mem_filter.1 h).1
  rw [tokenize_ofText] at hl
  obtain ⟨body, he, hbody⟩ := lexemesFrom_eq_append 1 (normalize text.toList)
  rw [he, List.mem_append, List.mem_singleton] at hl
  rcases hl with hl | rfl
  · exact absurd ended (hbody l hl).1
  · rfl

/-! ## tokens on lines of their own -/

namespace Scanner

variable (cs : List Char)

theorem symbolsOf_reserved {e : String × TokenKind} (h : e ∈ TokenKind.reserved) :
    symbolsOf (e.1.toList ++ '\n' :: cs) = e.swap :: symbolsOf cs := by
  have words : ∀ e ∈ TokenKind.reserved,
      isWord e.1 = true ∧ TokenKind.reserved.lookup e.1 = some e.2 := by decide
  obtain ⟨word, known⟩ := words e h
  rw [symbolsOf_word word (apart_cons rfl), known, symbolsOf_newline]
  rfl

theorem symbolsOf_lone {e : Char × TokenKind}
    (h : e ∈ TokenKind.punctuators ++ TokenKind.simpleOperators) :
    symbolsOf (e.1 :: '\n' :: cs) = (e.2, String.singleton e.1) :: symbolsOf cs := by
  have noDouble : ∀ e ∈ TokenKind.doubleOperators, e.1.2 ≠ '\n' := by decide
  rw [← symbolsOf_newline cs]
  by_cases slash : e.1 = '/'
  · have : ∀ e ∈ TokenKind.punctuators ++ TokenKind.simpleOperators, e.1 = '/' →
        e = ('/', .multiplicative) := by decide
    rw [this e h slash]
    exact symbolsOf_cut rfl rfl
  · refine symbolsOf_single h slash fun d hd f hf eq => noDouble f hf ?_
    cases hd
    rw [eq]

theorem symbolsOf_double {e : (Char × Char) × TokenKind} (h : e ∈ TokenKind.doubleOperators) :
    symbolsOf (e.1.1 :: e.1.2 :: '\n' :: cs) =
      (e.2, String.ofList [e.1.1, e.1.2]) :: symbolsOf cs := by
  rw [← symbolsOf_newline cs]
  simp only [TokenKind.doubleOperators, List.mem_cons, List.not_mem_nil, or_false] at h
  rcases h with rfl | rfl | rfl | rfl | rfl | rfl | rfl | rfl <;> exact symbolsOf_cut rfl rfl

theorem symbolsOf_fixed {s : Symbol} (h : s ∈ Symbol.fixed) :
    symbolsOf (s.2.toList ++ '\n' :: cs) = s :: symbolsOf cs := by
  rcases List.mem_append.1 h with h | h
  · rcases List.mem_append.1 h with h | h
    · obtain ⟨e, he, rfl⟩ := List.mem_map.1 h
      exact symbolsOf_reserved cs he
    · obtain ⟨e, he, rfl⟩ := List.mem_map.1 h
      simpa using symbolsOf_lone cs he
  · obtain ⟨e, he, rfl⟩ := List.mem_map.1 h
    simpa using symbolsOf_double cs he

end Scanner

/-- The token has a spelling that its kind can have, and is none that a program does not have. -/
structure Token.Writable (t : Token) : Prop where
  tabled : t.Tabled
  spelled : Spelled t
  sound : t.kind ∉ [.comment, .error, .endOfFile]

namespace Token.Writable

variable {t : Token} (h : t.Writable)

include h

theorem free_or_fixed : t.kind = .identifier ∨ (∃ k, constantKind? t.kind = some k) ∨
    t.symbol ∈ Symbol.fixed := by
  refine h.tabled.elim (fun free => ?_) fun fixed => .inr (.inr fixed)
  have kinds := h.sound
  revert free kinds
  cases t.kind <;> simp [TokenKind.isFree, constantKind?]

/-- A token that ends a line is scanned as it was. -/
theorem symbolsOf (cs : List Char) :
    symbolsOf (t.spelling.toList ++ '\n' :: cs) = t.symbol :: Scanner.symbolsOf cs := by
  rcases h.free_or_fixed with hk | ⟨k, hk⟩ | fixed
  · rw [symbolsOf_name (h.spelled.name hk) (apart_cons rfl), symbolsOf_newline, Token.symbol, hk]
  · rw [symbolsOf_constant (h.spelled.constant k hk) (apart_cons rfl), symbolsOf_newline,
      Token.symbol_of_constantKind? hk]
  · exact symbolsOf_fixed cs fixed

theorem return_notMem : '\r' ∉ t.spelling.toList := by
  rcases h.free_or_fixed with hk | ⟨k, hk⟩ | fixed
  · exact (oneLine_name (h.spelled.name hk)).2
  · exact (oneLine_constant (h.spelled.constant k hk)).2
  · have none : ∀ s ∈ Symbol.fixed, '\r' ∉ s.2.toList := by decide
    exact none _ fixed

theorem genuine : t.Genuine :=
  ⟨fun hk => congrArg Prod.snd (h.tabled.symbol_eq (s := Symbol.equals) hk (by decide)),
    fun hk => congrArg Prod.snd (h.tabled.symbol_eq (s := (.increment, "++")) hk (by decide)),
    fun hk => congrArg Prod.snd (h.tabled.symbol_eq (s := (.decrement, "--")) hk (by decide))⟩

end Token.Writable

/-- The text of the tokens, each on a line of its own. -/
def spellOut (w : List Token) : String :=
  String.ofList (w.flatMap fun t => t.spelling.toList ++ ['\n'])

theorem symbolsOf_spellOut {w : List Token} (h : ∀ t ∈ w, t.Writable) :
    Scanner.symbolsOf (spellOut w).toList = w.map Token.symbol ++ [(.endOfFile, "")] := by
  rw [spellOut, String.toList_ofList]
  induction w with
  | nil => exact symbolsOf_nil
  | cons t w ih =>
    rw [List.forall_mem_cons] at h
    rw [List.flatMap_cons, List.append_assoc, List.singleton_append, h.1.symbolsOf, ih h.2]
    rfl

theorem Grammar.tokens_spellOut {w : List Token} (h : ∀ t ∈ w, t.Writable) :
    (tokens (spellOut w)).map Token.symbol = w.map Token.symbol ++ [(.endOfFile, "")] := by
  have plain : '\r' ∉ (spellOut w).toList := by
    simpa [spellOut] using fun t ht => (h t ht).return_notMem
  rw [symbols_tokens, normalize_eq_self plain, symbolsOf_spellOut h]
  refine List.filter_eq_self.2 fun s hs => ?_
  rcases List.mem_append.1 hs with hs | hs
  · obtain ⟨t, ht, rfl⟩ := List.mem_map.1 hs
    have kinds := (h t ht).sound
    simp only [List.mem_cons, not_or] at kinds
    exact decide_eq_true kinds.1
  · rw [List.mem_singleton.1 hs]
    rfl

end BantamSyntax
