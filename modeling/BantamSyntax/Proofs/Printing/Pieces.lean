import BantamSyntax.Proofs.Printing.Literals

/-!
# Scanning printed pieces

How the words, constants and operators that texts are printed from are scanned, whatever comes
after them.
-/
namespace BantamSyntax
namespace Scanner

/-! ## symbols of texts -/

/-- The symbols of all tokens of a text, comments and the end included. -/
def symbolsOf (cs : List Char) : List Symbol :=
  (lexemesFrom 0 cs).map (·.token.symbol)

theorem map_symbol_lexemesFrom (line line' : Nat) (cs : List Char) :
    (lexemesFrom line cs).map (·.token.symbol) = (lexemesFrom line' cs).map (·.token.symbol) := by
  fun_induction lexemesFrom line cs generalizing line' with
  | case1 line =>
    rw [lexemesFrom_nil]
    rfl
  | case2 line c cs hb ih => rw [lexemesFrom_blank hb, ih]
  | case3 line c cs hb ih =>
    rw [lexemesFrom_cut (by simpa using hb), List.map_cons, List.map_cons, ih]
    rfl

theorem symbolsOf_nil : symbolsOf [] = [(.endOfFile, "")] := by
  rw [symbolsOf, lexemesFrom_nil]
  rfl

theorem symbolsOf_blank {c : Char} {cs : List Char} (h : isBlank c = true) :
    symbolsOf (c :: cs) = symbolsOf cs := by
  rw [symbolsOf, lexemesFrom_blank h]
  exact map_symbol_lexemesFrom _ _ cs

theorem symbolsOf_cut {c : Char} {cs rest spelling : List Char} {kind : TokenKind}
    {fault : Option LexicalFault} (hb : isBlank c = false)
    (h : cut c cs = ⟨kind, spelling, fault, rest⟩) :
    symbolsOf (c :: cs) = (kind, String.ofList spelling) :: symbolsOf rest := by
  rw [symbolsOf, lexemesFrom_cut hb, h, List.map_cons]
  exact congrArg (_ :: ·) (map_symbol_lexemesFrom _ _ rest)

theorem symbolsOf_space (cs : List Char) : symbolsOf (' ' :: cs) = symbolsOf cs :=
  symbolsOf_blank rfl

theorem symbolsOf_newline (cs : List Char) : symbolsOf ('\n' :: cs) = symbolsOf cs :=
  symbolsOf_blank rfl

theorem symbolsOf_blanks (n : Int) (cs : List Char) :
    symbolsOf ((Line.blanks n).toList ++ cs) = symbolsOf cs := by
  rw [Line.blanks, String.toList_ofList]
  generalize n.toNat = k
  induction k with
  | zero => rfl
  | succ k ih => rw [List.replicate_succ, List.cons_append, symbolsOf_space, ih]

/-! ## words and literals -/

/-- The text does not go on with a word before it. -/
def Apart (cs : List Char) : Prop :=
  ∀ c ∈ cs.head?, isWordChar c = false

theorem apart_cons {c : Char} {cs : List Char} (h : isWordChar c = false) : Apart (c :: cs) := by
  intro d hd
  cases hd
  exact h

theorem apart_nil : Apart [] := nofun

theorem isBlank_of_isWordChar {c : Char} (h : isWordChar c = true) : isBlank c = false := by
  cases hb : isBlank c with
  | false => rfl
  | true =>
    simp only [isBlank, List.mem_cons, List.not_mem_nil, or_false, decide_eq_true_eq] at hb
    rcases hb with rfl | rfl | rfl | rfl <;> cases h

theorem symbolsOf_word {s : String} {cs : List Char} (h : isWord s = true) (apart : Apart cs) :
    symbolsOf (s.toList ++ cs) =
      ((TokenKind.reserved.lookup s).getD .identifier, s) :: symbolsOf cs := by
  unfold isWord at h
  cases hs : s.toList with
  | nil => simp [hs] at h
  | cons c ds =>
    simp only [hs, Bool.and_eq_true] at h
    obtain ⟨taken, dropped⟩ := takeWhile_append_stop h.2 apart
    have spelled : String.ofList (c :: ds) = s := by rw [← hs, String.ofList_toList]
    have hc : cut c (ds ++ cs) = ⟨(TokenKind.reserved.lookup s).getD .identifier, c :: ds, none,
        cs⟩ := by
      simp only [cut, h.1, if_true, taken, dropped, spelled]
    have blank : isBlank c = false := isBlank_of_isWordChar (by simp [isWordChar, h.1])
    rw [List.cons_append, symbolsOf_cut blank hc, spelled]

theorem symbolsOf_name {s : String} {cs : List Char} (h : isName s = true) (apart : Apart cs) :
    symbolsOf (s.toList ++ cs) = (.identifier, s) :: symbolsOf cs := by
  simp only [isName, Bool.and_eq_true, Option.isNone_iff_eq_none] at h
  rw [symbolsOf_word h.1 apart, h.2]
  rfl

theorem isAlpha_of_isDigit {c : Char} (h : c.isDigit = true) : c.isAlpha = false := by
  have below : c.toNat ≤ '9'.toNat := (Char.isDigit_iff_toNat.1 h).2
  have not_le {d : Char} (hd : '9'.toNat < d.toNat) : decide (c.val ≥ d.val) = false :=
    decide_eq_false fun h => Nat.not_lt.2 (UInt32.le_iff_toNat_le.1 h) (Nat.lt_of_le_of_lt below hd)
  have notUpper : c.isUpper = false :=
    decide_eq_false fun h => of_decide_eq_false (not_le (d := 'A') (by decide)) h.1
  have notLower : c.isLower = false := by
    show (decide (c.val ≥ 'a'.val) && _) = false
    rw [not_le (by decide), Bool.false_and]
  show (c.isUpper || c.isLower) = false
  rw [notUpper, notLower, Bool.false_or]

theorem symbolsOf_constant {kind : ConstantKind} {s : String} {cs : List Char}
    (h : kind.Spells s) (apart : Apart cs) :
    symbolsOf (s.toList ++ cs) = Symbol.ofConstant kind s :: symbolsOf cs := by
  cases kind with
  | integer =>
    obtain ⟨digits, value⟩ := h
    simp only [Numeral.isDigits, Bool.and_eq_true] at digits
    cases hs : s.toList with
    | nil => simp [hs] at digits
    | cons c ds =>
      rw [hs] at digits value
      have all := digits.2
      simp only [List.all_cons, Bool.and_eq_true] at all
      have stop : ∀ d ∈ cs.head?, d.isDigit = false := by
        intro d hd
        have := apart d hd
        simp only [isWordChar, Bool.or_eq_false_iff] at this
        exact this.1.2
      obtain ⟨taken, dropped⟩ := takeWhile_append_stop all.2 stop
      have spelled : String.ofList (c :: ds) = s := by rw [← hs, String.ofList_toList]
      have noFault := (LexicalFault.ofInteger?_eq_none_iff digits.2).2 value
      have noAlpha := isAlpha_of_isDigit all.1
      have hc : cut c (ds ++ cs) = ⟨.integer, c :: ds, none, cs⟩ := by
        simp only [cut, noAlpha, Bool.false_eq_true, if_false, all.1, if_true, taken, dropped,
          noFault, Cut.checked]
      have blank : isBlank c = false := isBlank_of_isWordChar (by simp [isWordChar, all.1])
      rw [List.cons_append, symbolsOf_cut blank hc, spelled]
      rfl
  | boolean =>
    rcases h with rfl | rfl
    · exact symbolsOf_word rfl apart
    · exact symbolsOf_word rfl apart
  | string =>
    obtain ⟨body, hs, string, _⟩ := isString_of_scansAlone h
    have spelled : String.ofList ('"' :: body) = s := by rw [← hs, String.ofList_toList]
    rw [hs, List.cons_append, symbolsOf_cut (c := '"') rfl (string.append cs), spelled]
    rfl

/-! ## punctuators and operators -/

/-- A character that begins no longer operator with the one after it, and no comment. -/
theorem symbolsOf_single {c : Char} {k : TokenKind} {cs : List Char}
    (h : (c, k) ∈ TokenKind.punctuators ++ TokenKind.simpleOperators) (noSlash : c ≠ '/')
    (noDouble : ∀ d ∈ cs.head?, ∀ e ∈ TokenKind.doubleOperators, e.1 ≠ (c, d)) :
    symbolsOf (c :: cs) = (k, String.singleton c) :: symbolsOf cs := by
  have plain : ∀ e ∈ TokenKind.punctuators ++ TokenKind.simpleOperators, isBlank e.1 = false ∧
      e.1.isAlpha = false ∧ e.1.isDigit = false ∧ e.1 ≠ '"' ∧
      (TokenKind.punctuators ++ TokenKind.simpleOperators).lookup e.1 = some e.2 := by decide
  obtain ⟨blank, noAlpha, noDigit, noQuote, single⟩ := plain _ h
  have double : (cs.head?.bind fun d => TokenKind.doubleOperators.lookup (c, d)) = none := by
    rw [Option.bind_eq_none_iff]
    intro d hd
    cases hl : TokenKind.doubleOperators.lookup (c, d) with
    | none => rfl
    | some kind => exact absurd rfl (noDouble d hd _ (mem_of_lookup hl))
  have opening : Opening.of c cs.head? = .single k := by
    simp [Opening.of, double, noSlash, single]
  have hc : cut c cs = ⟨k, [c], none, cs⟩ := by
    simp [cut, noAlpha, noDigit, noQuote, cutOperator, opening]
  rw [symbolsOf_cut blank hc]
  rfl

theorem symbolsOf_punctuator {c : Char} {k : TokenKind} {cs : List Char}
    (h : (c, k) ∈ TokenKind.punctuators) :
    symbolsOf (c :: cs) = (k, String.singleton c) :: symbolsOf cs := by
  have apart : ∀ e ∈ TokenKind.punctuators, e.1 ≠ '/' ∧
      ∀ d ∈ TokenKind.doubleOperators, d.1.1 ≠ e.1 := by decide
  obtain ⟨noSlash, noDouble⟩ := apart _ h
  apply symbolsOf_single (List.mem_append_left _ h) noSlash
  intro d _ e he hd
  exact noDouble e he (congrArg Prod.fst hd)

open BantamSyntax.Symbol

theorem symbolsOf_opening (cs : List Char) : symbolsOf ('(' :: cs) = opening :: symbolsOf cs :=
  symbolsOf_punctuator (by decide)

theorem symbolsOf_closing (cs : List Char) : symbolsOf (')' :: cs) = closing :: symbolsOf cs :=
  symbolsOf_punctuator (by decide)

theorem symbolsOf_comma (cs : List Char) : symbolsOf (',' :: cs) = comma :: symbolsOf cs :=
  symbolsOf_punctuator (by decide)

theorem symbolsOf_semicolon (cs : List Char) :
    symbolsOf (';' :: cs) = semicolon :: symbolsOf cs :=
  symbolsOf_punctuator (by decide)

theorem symbolsOf_openBrace (cs : List Char) :
    symbolsOf ('\x7b' :: cs) = openBrace :: symbolsOf cs :=
  symbolsOf_punctuator (by decide)

theorem symbolsOf_closeBrace (cs : List Char) :
    symbolsOf ('\x7d' :: cs) = closeBrace :: symbolsOf cs :=
  symbolsOf_punctuator (by decide)

theorem symbolsOf_dot (cs : List Char) : symbolsOf ('.' :: cs) = (.dot, ".") :: symbolsOf cs :=
  symbolsOf_punctuator (by decide)

theorem symbolsOf_equals (cs : List Char) :
    symbolsOf ('=' :: ' ' :: cs) = equals :: symbolsOf (' ' :: cs) :=
  symbolsOf_cut rfl rfl

theorem symbolsOf_binary (op : BinaryOp) (cs : List Char) :
    symbolsOf (op.symbol.toList ++ ' ' :: cs) = ofBinary op :: symbolsOf (' ' :: cs) := by
  rcases op with op | op | op <;> cases op <;> exact symbolsOf_cut rfl rfl

/-- The characters that printed expressions begin with. -/
def BeginsExpr (cs : List Char) : Prop :=
  ∃ c ds, cs = c :: ds ∧ (c.isAlpha = true ∨ c.isDigit = true ∨ c = '"' ∨ c = '(')

theorem BeginsExpr.append {cs : List Char} (h : BeginsExpr cs) (ds : List Char) :
    BeginsExpr (cs ++ ds) := by
  obtain ⟨c, cs, rfl, hc⟩ := h
  exact ⟨c, cs ++ ds, rfl, hc⟩

theorem symbolsOf_increment (cs : List Char) :
    symbolsOf ('+' :: '+' :: cs) = (.increment, "++") :: symbolsOf cs :=
  symbolsOf_cut rfl rfl

theorem symbolsOf_decrement (cs : List Char) :
    symbolsOf ('-' :: '-' :: cs) = (.decrement, "--") :: symbolsOf cs :=
  symbolsOf_cut rfl rfl

theorem symbolsOf_before (op : UnaryOp) {cs : List Char} (h : BeginsExpr cs) :
    symbolsOf (op.symbol.toList ++ cs) = ofUnary op :: symbolsOf cs := by
  obtain ⟨c, cs, rfl, hc⟩ := h
  cases op with
  | negate =>
    have double : ∀ e ∈ TokenKind.doubleOperators, e.1.1 = '-' → e.1.2 = '-' := by decide
    show symbolsOf ('-' :: c :: cs) = _
    apply symbolsOf_single (by decide) (by decide)
    intro d hd e he eq
    cases hd
    have second : c = '-' := by simpa [eq] using double e he (by simp [eq])
    subst second
    exact absurd hc (by decide)
  | not =>
    have double : ∀ e ∈ TokenKind.doubleOperators, e.1.1 = '!' → e.1.2 = '=' := by decide
    show symbolsOf ('!' :: c :: cs) = _
    apply symbolsOf_single (by decide) (by decide)
    intro d hd e he eq
    cases hd
    have second : c = '=' := by simpa [eq] using double e he (by simp [eq])
    subst second
    exact absurd hc (by decide)
  | increment => simp [UnaryOp.symbol, ofUnary, symbolsOf_increment]
  | decrement => simp [UnaryOp.symbol, ofUnary, symbolsOf_decrement]

theorem symbolsOf_after {op : UnaryOp} (h : op.side = .after) (cs : List Char) :
    symbolsOf (op.symbol.toList ++ cs) = ofUnary op :: symbolsOf cs := by
  cases op with
  | negate => cases h
  | not => cases h
  | increment => simp [UnaryOp.symbol, ofUnary, symbolsOf_increment]
  | decrement => simp [UnaryOp.symbol, ofUnary, symbolsOf_decrement]

theorem apart_after (op : UnaryOp) (cs : List Char) : Apart (op.symbol.toList ++ cs) := by
  cases op <;> simp only [UnaryOp.symbol, String.reduceToList, List.cons_append,
    List.nil_append] <;> exact apart_cons rfl

end Scanner
end BantamSyntax
