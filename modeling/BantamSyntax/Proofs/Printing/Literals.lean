import BantamSyntax.Proofs.Scanning.Lexemes
import BantamSyntax.Proofs.Scanning.Stopping
import BantamSyntax.Proofs.Printing.Symbols
import Mathlib.Algebra.Ring.Nat

/-!
# Literals

Which integer and string constants are scanned as they are spelled.
-/
namespace BantamSyntax

/-! ## integers -/

namespace Numeral

def ofDigit (c : Char) : Nat :=
  c.toNat - '0'.toNat

theorem ofDigit_le {c : Char} (h : c.isDigit = true) : ofDigit c ≤ 9 := by
  simp only [Char.isDigit, Bool.and_eq_true, decide_eq_true_eq] at h
  have upper : c.toNat ≤ 57 := UInt32.le_iff_toNat_le.1 h.2
  have zero : '0'.toNat = 48 := rfl
  simp only [ofDigit, zero]
  omega

theorem ofDigit_lt_iff {c d : Char} (hc : c.isDigit = true) (hd : d.isDigit = true) :
    ofDigit c < ofDigit d ↔ c < d := by
  simp only [Char.isDigit, Bool.and_eq_true, decide_eq_true_eq] at hc hd
  have hc : 48 ≤ c.toNat := UInt32.le_iff_toNat_le.1 hc.1
  have hd : 48 ≤ d.toNat := UInt32.le_iff_toNat_le.1 hd.1
  have zero : '0'.toNat = 48 := rfl
  have : c < d ↔ c.toNat < d.toNat := UInt32.lt_iff_toNat_lt
  simp only [ofDigit, zero, this]
  omega

theorem ofDigit_inj {c d : Char} (hc : c.isDigit = true) (hd : d.isDigit = true)
    (h : ofDigit c = ofDigit d) : c = d := by
  have := mt (ofDigit_lt_iff hc hd).2 (by omega)
  have := mt (ofDigit_lt_iff hd hc).2 (by omega)
  exact Char.le_antisymm (by simpa using ‹¬d < c›) (by simpa using ‹¬c < d›)

theorem foldl_digits (n : Nat) (ds : List Char) :
    ds.foldl (fun n d => n * 10 + (d.toNat - '0'.toNat)) n =
      n * 10 ^ ds.length + natOfDigits ds := by
  induction ds generalizing n with
  | nil => simp [natOfDigits]
  | cons d ds ih =>
    rw [natOfDigits, List.foldl_cons, List.foldl_cons, ih, ih (0 * 10 + (d.toNat - '0'.toNat)),
      List.length_cons, Nat.pow_succ']
    grind

theorem natOfDigits_cons (d : Char) (ds : List Char) :
    natOfDigits (d :: ds) = ofDigit d * 10 ^ ds.length + natOfDigits ds := by
  rw [natOfDigits, List.foldl_cons, foldl_digits, ofDigit]
  simp

theorem natOfDigits_lt {ds : List Char} (h : ds.all Char.isDigit = true) :
    natOfDigits ds < 10 ^ ds.length := by
  induction ds with
  | nil => simp [natOfDigits]
  | cons d ds ih =>
    simp only [List.all_cons, Bool.and_eq_true] at h
    have := ih h.2
    have := Nat.mul_le_mul_right (10 ^ ds.length) (ofDigit_le h.1)
    rw [natOfDigits_cons, List.length_cons, Nat.pow_succ']
    omega

/-- Zeros that come first add nothing. -/
theorem natOfDigits_dropZeros (ds : List Char) :
    natOfDigits (ds.dropWhile (· = '0')) = natOfDigits ds := by
  induction ds with
  | nil => rfl
  | cons d ds ih =>
    by_cases h : d = '0'
    · subst h
      simp [natOfDigits_cons, ofDigit, ih]
    · simp [h]

/-- As many digits have the order of their numbers. -/
theorem lt_iff_natOfDigits_lt {ds es : List Char} (hd : ds.all Char.isDigit = true)
    (he : es.all Char.isDigit = true) (len : ds.length = es.length) :
    ds < es ↔ natOfDigits ds < natOfDigits es := by
  induction ds generalizing es with
  | nil =>
    cases es with
    | nil => simp
    | cons => simp at len
  | cons d ds ih =>
    cases es with
    | nil => simp at len
    | cons e es =>
      simp only [List.all_cons, Bool.and_eq_true] at hd he
      simp only [List.length_cons, Nat.add_right_cancel_iff] at len
      have hx := natOfDigits_lt hd.2
      have hy := natOfDigits_lt he.2
      rw [List.cons_lt_cons_iff, ih hd.2 he.2 len, natOfDigits_cons, natOfDigits_cons,
        ← ofDigit_lt_iff hd.1 he.1]
      rw [len] at hx ⊢
      rcases Nat.lt_trichotomy (ofDigit d) (ofDigit e) with h | h | h
      · have := Nat.mul_le_mul_right (10 ^ es.length) (Nat.succ_le_of_lt h)
        rw [Nat.succ_mul] at this
        constructor
        · intro
          omega
        · exact fun _ => .inl h
      · simp [ofDigit_inj hd.1 he.1 h]
      · have := Nat.mul_le_mul_right (10 ^ es.length) (Nat.succ_le_of_lt h)
        rw [Nat.succ_mul] at this
        constructor
        · rintro (h' | ⟨rfl, -⟩) <;> omega
        · intro
          omega

theorem natOfDigits_le_of_cons {d : Char} {ds : List Char} (h : d.isDigit = true) (hd : d ≠ '0') :
    10 ^ ds.length ≤ natOfDigits (d :: ds) := by
  have pos : 0 < ofDigit d := by
    rcases Nat.eq_zero_or_pos (ofDigit d) with h0 | h0
    · exact absurd (ofDigit_inj (d := '0') h rfl h0) hd
    · exact h0
  rw [natOfDigits_cons]
  have := Nat.mul_le_mul_right (10 ^ ds.length) pos
  omega

end Numeral

open Numeral in
/-- Digits are compared as their number would be. -/
theorem LexicalFault.ofInteger?_eq_none_iff {ds : List Char} (h : ds.all Char.isDigit = true) :
    ofInteger? ds = none ↔ natOfDigits ds ≤ maxInteger := by
  have hd : (ds.dropWhile (· = '0')).all Char.isDigit = true := by
    rw [List.all_eq_true] at h ⊢
    exact fun c hc => h c ((List.dropWhile_sublist _).subset hc)
  have first : ∀ c cs, ds.dropWhile (· = '0') = c :: cs → c ≠ '0' := by
    intro c cs hc h0
    have := List.head?_dropWhile_not (· = '0') ds
    simp [hc, h0] at this
  have limit_digits : (Nat.toDigits 10 maxInteger).all Char.isDigit = true := by decide
  have limit_length : (Nat.toDigits 10 maxInteger).length = 10 := by decide
  have limit_value : natOfDigits (Nat.toDigits 10 maxInteger) = maxInteger := by decide
  rw [← natOfDigits_dropZeros, ofInteger?]
  generalize ds.dropWhile (· = '0') = es at hd first
  simp only [limit_length, ite_eq_right_iff, reduceCtorEq, imp_false, not_or, not_and]
  have upper := natOfDigits_lt hd
  rcases Nat.lt_trichotomy es.length 10 with len | len | len
  · have := Nat.pow_le_pow_right (n := 10) (by decide) (Nat.le_of_lt_succ len)
    have small : (10 : Nat) ^ 9 ≤ maxInteger := by decide
    constructor
    · intro
      omega
    · exact fun _ => ⟨by omega, fun h => by omega⟩
  · have order := lt_iff_natOfDigits_lt limit_digits hd (limit_length.trans len.symm)
    rw [limit_value] at order
    simp [order, len]
  · cases es with
    | nil => simp at len
    | cons c cs =>
      simp only [List.all_cons, Bool.and_eq_true] at hd
      have lower := @natOfDigits_le_of_cons c cs hd.1 (first c cs rfl)
      have := Nat.pow_le_pow_right (n := 10) (by decide) (Nat.le_of_lt_succ len)
      have large : maxInteger < (10 : Nat) ^ 10 := by decide
      constructor
      · exact fun h => absurd len h.1
      · intro
        omega

/-! ## strings -/

theorem LexicalFault.ofString?_eq_none_iff {cs : List Char} :
    ofString? cs = none ↔ hasIllegalEscape cs = false ∧ cs.length ≤ maxStringLength ∧
      '\n' ∉ cs := by
  unfold ofString?
  split_ifs <;> simp_all [Nat.not_le.2]

namespace Scanner

/-- A string constant, which is all of a text. -/
def IsString (cs : List Char) : Prop :=
  cutString cs = ⟨.string, '"' :: cs, none, []⟩

theorem IsString.run_eq {cs : List Char} (h : IsString cs) :
    run StringState.step .body cs = ((cs, .closed), []) ∧
      LexicalFault.ofString? ('"' :: cs) = none := by
  unfold IsString cutString at h
  dsimp only at h
  split at h
  · rename_i closed
    cases hf : LexicalFault.ofString? ('"' :: (run StringState.step .body cs).1.1) with
    | some fault => simp [hf, Cut.checked] at h
    | none =>
      simp only [hf, Cut.checked, Cut.mk.injEq, List.cons.injEq, true_and] at h
      rw [h.1] at hf
      exact ⟨Prod.ext (Prod.ext h.1 closed) h.2, hf⟩
  · cases h

theorem IsString.append {cs : List Char} (h : IsString cs) (rest : List Char) :
    cutString (cs ++ rest) = ⟨.string, '"' :: cs, none, rest⟩ := by
  obtain ⟨hr, hf⟩ := h.run_eq
  have := @run_stop _ StringState.step .body cs rest fun _ _ => by rw [hr]; rfl
  rw [hr] at this
  simp [cutString, this, hf, Cut.checked]

theorem kind_cutString {cs : List Char} (h : (cutString cs).kind = .string) :
    ∃ body, cutString cs = ⟨.string, '"' :: body, none, (cutString cs).rest⟩ ∧ IsString body := by
  unfold cutString at h ⊢
  dsimp only at h ⊢
  split at h
  · rename_i closed
    rw [if_pos closed]
    cases hf : LexicalFault.ofString? ('"' :: (run StringState.step .body cs).1.1) with
    | some fault => simp [hf, Cut.checked] at h
    | none =>
      refine ⟨_, rfl, ?_⟩
      simp [IsString, cutString, run_self, closed, hf, Cut.checked]
  · cases h

/-! ## kinds of lexemes that are leaves of trees -/

/-- The kinds of tokens that are spelled in more than one way, but for operators. -/
def isOpen (k : TokenKind) : Bool :=
  k ∈ [.identifier, .integer, .boolean, .string]

theorem isOpen_cutOperator (first : Char) (cs : List Char) :
    isOpen (cutOperator first cs).kind = false :=
  of_cutOperator (p := fun k => isOpen k = false) rfl rfl (by decide) (by decide) first cs

/-- Only a quote begins a string constant. -/
theorem cut_of_kind_string {c : Char} {cs : List Char} (h : (cut c cs).kind = .string) :
    c = '"' ∧ cut c cs = cutString cs := by
  unfold cut at h ⊢
  split at h
  · exact absurd h (of_word (p := fun k => k ≠ .string) (by decide) (by decide) _)
  split at h
  · dsimp only at h
    cases hf : LexicalFault.ofInteger? (c :: cs.takeWhile Char.isDigit) <;>
      simp [hf, Cut.checked] at h
  split at h
  · exact ⟨‹_›, by simp [*]⟩
  · have := isOpen_cutOperator c cs
    rw [h] at this
    cases this

/-! ## texts that are one string -/

theorem length_normalize_le (cs : List Char) : (normalize cs).length ≤ cs.length := by
  fun_induction normalize cs with
  | case1 => simp
  | case2 cs ih => simp; omega
  | case3 c cs _ ih => simp; omega

theorem tokenize_ofText (text : String) :
    (ofSource (.ofText text)).tokenize.1.lexemes = lexemesFrom 1 (normalize text.toList) := by
  rw [tokenize_faces (ofSource_faces (Source.ofText_gives text Source.anonymous))]
  exact lexemesFrom_blank rfl

theorem scansAlone_of_isString {cs : List Char} (h : IsString cs) (hr : '\r' ∉ cs) :
    ScansAlone .string (String.ofList ('"' :: cs)) := by
  have blank : isBlank '"' = false := rfl
  have hc : cut '"' cs = ⟨.string, '"' :: cs, none, []⟩ := h
  refine ⟨1, (ending ↑(1 + newlines ('"' :: cs))).token, ?_⟩
  rw [tokenize_ofText, String.toList_ofList, normalize_eq_self (by simpa using hr),
    lexemesFrom_cut blank, hc, lexemesFrom_nil]
  rfl

/-- A text that is one string constant begins with its quote and ends with the constant. -/
theorem isString_of_scansAlone {s : String} (h : ScansAlone .string s) :
    ∃ cs, s.toList = '"' :: cs ∧ IsString cs ∧ '\r' ∉ cs := by
  obtain ⟨line, last, h⟩ := h
  rw [tokenize_ofText, lexemesFrom_dropBlanks] at h
  have short := length_normalize_le s.toList
  have whole := List.takeWhile_append_dropWhile (p := isBlank) (l := normalize s.toList)
  cases hd : (normalize s.toList).dropWhile isBlank with
  | nil =>
    rw [hd, lexemesFrom_nil] at h
    cases h
  | cons c cs =>
    have hc : isBlank c = false := by
      have := List.head?_dropWhile_not isBlank (normalize s.toList)
      simpa [hd] using this
    rw [hd, lexemesFrom_cut hc] at h
    obtain ⟨ht, -⟩ := List.cons.inj h
    have kind : (cut c cs).kind = .string := congrArg Token.kind ht
    have spelling : (cut c cs).spelling = s.toList := by
      have := congrArg (String.toList ∘ Token.spelling) ht
      simpa [Cut.lexeme] using this
    obtain ⟨rfl, hq⟩ := cut_of_kind_string kind
    -- The token is as long as the text, which leaves nothing to stand before or after it.
    have all := cut_append '"' cs
    have len := congrArg List.length all
    rw [spelling] at all len
    have size := congrArg List.length whole
    rw [hd] at size
    simp only [List.length_append, List.length_cons] at len size
    have rest : (cut '"' cs).rest = [] := List.length_eq_zero_iff.1 (by omega)
    rw [rest, List.append_nil] at all
    obtain ⟨body, hb, hs⟩ := kind_cutString (hq ▸ kind)
    have same : '"' :: body = '"' :: cs := by
      rw [← all, ← spelling, hq, hb]
    refine ⟨cs, all, (List.cons.inj same).2 ▸ hs, fun hr => return_notMem_normalize s.toList ?_⟩
    rw [← whole, hd]
    simp [hr]

/-! ## spellings of tokens -/

/-- A token that is a leaf of trees is spelled as such a leaf. -/
structure Spelled (t : Token) : Prop where
  name : t.kind = .identifier → isName t.spelling = true
  constant : ∀ k, Grammar.constantKind? t.kind = some k → k.Spells t.spelling

theorem spelled_of_not_isOpen {t : Token} (h : isOpen t.kind = false) : Spelled t := by
  constructor
  · intro hk
    rw [hk] at h
    cases h
  · intro k hk
    unfold Grammar.constantKind? at hk
    split at hk <;> rename_i e <;> first | (rw [e] at h; cases h) | cases hk

theorem spelled_word {first : Char} (cs : List Char) (h : first.isAlpha = true) (line : Int) :
    Spelled ⟨(TokenKind.reserved.lookup (String.ofList (first :: cs.takeWhile isWordChar))).getD
      .identifier, String.ofList (first :: cs.takeWhile isWordChar), line⟩ := by
  cases hl : TokenKind.reserved.lookup (String.ofList (first :: cs.takeWhile isWordChar)) with
  | none =>
    refine ⟨fun _ => ?_, fun k hk => by cases hk⟩
    have := List.all_takeWhile (p := isWordChar) (l := cs)
    simp only [isName, isWord, String.toList_ofList, h, hl, this, Bool.and_self, Option.isNone_none]
  | some kind =>
    have tabled : ∀ e ∈ TokenKind.reserved, e.2 ≠ .identifier ∧
        (Grammar.constantKind? e.2 = none ∨ Grammar.constantKind? e.2 = some .boolean ∧
          (e.1 = "true" ∨ e.1 = "false")) := by decide
    obtain ⟨noName, constant⟩ := tabled _ (mem_of_lookup hl)
    refine ⟨fun h => absurd h noName, fun k hk => ?_⟩
    rcases constant with none | ⟨some, spelled⟩
    · exact absurd (none.symm.trans hk) (by simp)
    · cases some.symm.trans hk
      exact spelled

theorem spelled_cut {first : Char} {cs : List Char} (h : '\r' ∉ first :: cs) (line : Int) :
    Spelled ((cut first cs).lexeme line).token := by
  have hr : '\r' ∉ (cut first cs).spelling := by
    rw [← cut_append] at h
    exact fun hm => h (List.mem_append_left _ hm)
  by_cases hs : (cut first cs).kind = .string
  · obtain ⟨rfl, hq⟩ := cut_of_kind_string hs
    obtain ⟨body, hb, hbody⟩ := kind_cutString (hq ▸ hs)
    rw [hq, hb] at hr ⊢
    refine ⟨nofun, fun k hk => ?_⟩
    cases hk
    exact scansAlone_of_isString hbody (by simpa using hr)
  unfold cut at hs ⊢
  split
  · exact spelled_word cs ‹_› line
  split
  · dsimp only
    cases hf : LexicalFault.ofInteger? (first :: cs.takeWhile Char.isDigit) with
    | some fault => exact spelled_of_not_isOpen rfl
    | none =>
      refine ⟨nofun, fun k hk => ?_⟩
      cases hk
      have digits : (first :: cs.takeWhile Char.isDigit).all Char.isDigit = true := by
        simp [*, List.all_takeWhile]
      have value := (LexicalFault.ofInteger?_eq_none_iff digits).1 hf
      simp [ConstantKind.Spells, Cut.checked, Cut.lexeme, Numeral.isDigits, digits, value]
  split
  · have error := (kind_cutString_eq cs).resolve_left (by simp_all)
    exact spelled_of_not_isOpen (by rw [Cut.lexeme, error]; rfl)
  · exact spelled_of_not_isOpen (isOpen_cutOperator first cs)

end Scanner

end BantamSyntax
