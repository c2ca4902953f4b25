import BantamSyntax.Proofs.Scanning.Stopping

/-!
# Faults by spelling

How a faulty lexeme is spelled tells what can be wrong with it: the faults of strings, comments,
integers and operators each have spellings of their own, and all that is left is illegal.
-/
namespace BantamSyntax
namespace LexicalFault

/-- What can be wrong with a string constant. -/
def ofStrings : List LexicalFault :=
  [unterminatedString, illegalEscape, longString, multilineString]

theorem mem_ofStrings {f : LexicalFault} {cs : List Char} (h : ofString? cs = some f) :
    f ∈ ofStrings := by
  unfold ofString? at h
  repeat' split at h
  all_goals cases h
  all_goals decide

theorem eq_largeInteger {f : LexicalFault} {cs : List Char} (h : ofInteger? cs = some f) :
    f = largeInteger := by
  simp only [ofInteger?] at h
  split at h
  · cases h
    rfl
  · cases h

theorem message_inj {f g : LexicalFault} : f.message = g.message ↔ f = g := by
  cases f <;> cases g <;> decide

/-- The fault is of the sort that the spelling tells. -/
structure Fits (f : LexicalFault) (cs : List Char) : Prop where
  string : f ∈ ofStrings ↔ cs.head? = some '"'
  comment : f = unterminatedComment ↔ ['/', '*'] <+: cs
  integer : f = largeInteger ↔ ∃ c ∈ cs.head?, c.isDigit = true
  operator : f = bitwiseOperator ↔ cs = ['&'] ∨ cs = ['|']

/-- There is one more fault than these. -/
theorem eq_illegalCharacter_iff {f : LexicalFault} : f = illegalCharacter ↔
    f ∉ ofStrings ∧ f ≠ unterminatedComment ∧ f ≠ largeInteger ∧ f ≠ bitwiseOperator := by
  cases f <;> decide

variable {cs : List Char} {f : LexicalFault} {c : Char}

theorem fits_string (h : f ∈ ofStrings) : f.Fits ('"' :: cs) := by
  have others : f ≠ unterminatedComment ∧ f ≠ largeInteger ∧ f ≠ bitwiseOperator := by
    revert h
    cases f <;> decide
  refine ⟨by simpa using h, ?_, ?_, ?_⟩
  all_goals simp [others]

theorem fits_comment : unterminatedComment.Fits ('/' :: '*' :: cs) := by
  refine ⟨?_, ?_, ?_, ?_⟩
  all_goals simp [ofStrings, Char.isDigit]

theorem fits_integer (digit : c.isDigit = true) : largeInteger.Fits (c :: cs) := by
  have other (d : Char) (h : d.isDigit = false) : c ≠ d := by
    rintro rfl
    exact absurd digit (by simp [h])
  refine ⟨?_, ?_, by simpa using digit, ?_⟩
  · simp [other '"' rfl, ofStrings]
  · simp [(other '/' rfl).symm]
  · simp [other '&' rfl, other '|' rfl]

theorem fits_operator (h : c ∈ ['&', '|']) : bitwiseOperator.Fits [c] := by
  obtain rfl | rfl : c = '&' ∨ c = '|' := by simpa using h
  all_goals
    refine ⟨?_, ?_, ?_, ?_⟩
    all_goals simp [ofStrings, Char.isDigit]

theorem fits_character (digit : c.isDigit = false) (quote : c ≠ '"') (other : c ∉ ['&', '|']) :
    illegalCharacter.Fits [c] := by
  refine ⟨?_, ?_, ?_, ?_⟩
  · simp [quote, ofStrings]
  · simp
  · simp [digit]
  · simpa using other

end LexicalFault

namespace Scanner

open LexicalFault

variable {first : Char} {cs : List Char} {f : LexicalFault}

theorem Opening.eq_of_fault {second : Option Char} (h : of first second = .fault f) :
    f = if first ∈ ['&', '|'] then .bitwiseOperator else .illegalCharacter := by
  unfold of at h
  repeat' split at h
  all_goals simp_all

theorem fits_cutString (h : (cutString cs).fault = some f) : f.Fits (cutString cs).spelling := by
  rw [spelling_cutString]
  refine fits_string ?_
  unfold cutString at h
  dsimp only at h
  split at h
  · exact mem_ofStrings (Cut.fault_checked.symm.trans h)
  · cases h
    decide

theorem fits_cutOperator (digit : first.isDigit = false) (quote : first ≠ '"')
    (h : (cutOperator first cs).fault = some f) : f.Fits (cutOperator first cs).spelling := by
  unfold cutOperator at h ⊢
  split at h
  · cases h
  · cases h
  · cases h
  · rw [spelling_cutBlockComment]
    unfold cutBlockComment at h
    dsimp only at h
    split at h
    · cases h
    · cases h
      exact fits_comment
  · rename_i g ho
    cases h
    rw [Opening.eq_of_fault ho]
    split
    · exact fits_operator ‹_›
    · exact fits_character digit quote ‹_›

/-- A faulty lexeme has the fault that its spelling tells. -/
theorem fits_cut (h : (cut first cs).fault = some f) : f.Fits (cut first cs).spelling := by
  by_cases alpha : first.isAlpha
  · simp [cut, alpha] at h
  by_cases digit : first.isDigit
  · simp only [cut, if_neg alpha, if_pos digit, Cut.fault_checked, Cut.spelling_checked] at h ⊢
    rw [eq_largeInteger h]
    exact fits_integer digit
  by_cases quote : first = '"'
  · simp only [cut, if_neg alpha, if_neg digit, if_pos quote] at h ⊢
    exact fits_cutString h
  · simp only [cut, if_neg alpha, if_neg digit, if_neg quote] at h ⊢
    exact fits_cutOperator (by simpa using digit) quote h

/-- The lexeme is one of some text. -/
def Lexical (l : Lexeme) : Prop :=
  (∃ n, l = ending n) ∨ ∃ (c : Char) (cs : List Char) (n : Int), l = (cut c cs).lexeme n

theorem lexical_of_mem {l : Lexeme} {line : Nat} (h : l ∈ lexemesFrom line cs) : Lexical l :=
  (mem_lexemesFrom h).imp (fun ⟨n, hl⟩ => ⟨n, hl⟩) fun ⟨c, ds, n, hl⟩ => ⟨c, ds, n, hl⟩

theorem Lexical.faulty_iff {l : Lexeme} (h : Lexical l) :
    l.fault.isSome ↔ l.token.kind = .error := by
  rcases h with ⟨n, rfl⟩ | ⟨c, ds, n, rfl⟩
  · exact iff_of_false nofun nofun
  · exact (cut_regular c ds).fault

theorem Lexical.sound {l : Lexeme} (h : Lexical l) (sound : l.token.kind ≠ .error) :
    l.fault = none :=
  Option.not_isSome_iff_eq_none.1 fun faulty => sound (h.faulty_iff.1 faulty)

theorem Lexical.fits {l : Lexeme} (h : Lexical l) (hf : l.fault = some f) :
    f.Fits l.token.spelling.toList := by
  rcases h with ⟨n, rfl⟩ | ⟨c, ds, n, rfl⟩
  · cases hf
  · rw [Cut.lexeme, String.toList_ofList]
    exact fits_cut hf

end Scanner
end BantamSyntax
