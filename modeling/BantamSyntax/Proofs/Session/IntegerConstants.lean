import BantamSyntax.Proofs.Parsing.WellFormed
import BantamSyntax.Proofs.Printing.RoundTrip
import BantamSyntax.Proofs.Scanning.Reconstruction
import BantamSyntax.Proofs.Session.Requests
import Mathlib.Data.List.TakeWhile
import Mathlib.Data.Nat.Digits.Defs

/-!
# Integer constants

Which runs of digits are integer constants, and which of these have a value when they are read from
a tree.
-/
namespace BantamSyntax

/-! ## decimal values -/

/-- The number that digits stand for, the last one for the units. -/
def decimal (ds : List Char) : Nat :=
  Nat.ofDigits 10 (ds.reverse.map Numeral.ofDigit)

theorem Numeral.natOfDigits_eq (ds : List Char) : natOfDigits ds = decimal ds := by
  induction ds with
  | nil => rfl
  | cons d ds ih =>
    simp only [decimal, List.reverse_cons, List.map_append, Nat.ofDigits_append] at ih ⊢
    rw [natOfDigits_cons, ih]
    simp [Nat.add_comm, Nat.mul_comm]

/-- Digits that are not too large to be scanned are those of a small number. -/
theorem LexicalFault.ofInteger?_eq_none_iff_decimal {ds : List Char}
    (digits : ∀ d ∈ ds, d.isDigit = true) : ofInteger? ds = none ↔ decimal ds ≤ 2147483647 := by
  rw [ofInteger?_eq_none_iff (List.all_eq_true.2 digits), Numeral.natOfDigits_eq]
  rfl

theorem Numeral.unsigned_of_digits {ds : List Char} (digits : ∀ d ∈ ds, d.isDigit = true) :
    unsigned ds = ds := by
  unfold unsigned
  split
  · simp [Char.isDigit] at digits
  · simp [Char.isDigit] at digits
  · rfl

/-- As many digits as can be read have their decimal value, and more have none. -/
theorem Numeral.read_of_digits {spelling : String} (nonempty : spelling.toList ≠ [])
    (digits : ∀ d ∈ spelling.toList, d.isDigit = true) :
    read spelling = if spelling.toList.length ≤ 4300 then .ok (decimal spelling.toList)
      else .error (.tooLong spelling.toList.length) := by
  have all : isDigits spelling.toList = true := by
    simpa [isDigits, nonempty] using digits
  have chars : ofChars? spelling.toList = some (decimal spelling.toList : Int) := by
    unfold ofChars?
    split
    · rename_i h; simp [h, Char.isDigit] at digits
    · rename_i h; simp [h, Char.isDigit] at digits
    · rw [ofDigits?, if_pos all, natOfDigits_eq]
      rfl
  have whole := List.takeWhile_eq_self_iff.2 digits
  rw [read, unsigned_of_digits digits, whole, chars]
  by_cases short : spelling.toList.length ≤ 4300
  · exact (if_neg (Nat.not_lt.2 short)).trans (if_pos short).symm
  · exact (if_pos (Nat.not_le.1 short)).trans (if_neg short).symm

/-! ## scanned digits -/

namespace Scanner

variable {d : Char} {ds rest : List Char}

theorem isBlank_of_isDigit (digit : d.isDigit = true) : isBlank d = false := by
  rw [← Bool.not_eq_true, isBlank_iff]
  rintro (rfl | rfl | rfl | rfl) <;> cases digit

theorem newlines_of_digits (digits : ∀ d ∈ ds, d.isDigit = true) : newlines ds = 0 :=
  List.count_eq_zero.2 fun among => by simpa [Char.isDigit] using digits _ among

theorem cut_digits (digits : ∀ e ∈ d :: ds, e.isDigit = true)
    (stop : ∀ e ∈ rest.head?, e.isDigit = false) :
    cut d (ds ++ rest) =
      .checked .integer (LexicalFault.ofInteger? (d :: ds)) (d :: ds) rest := by
  obtain ⟨first, later⟩ := List.forall_mem_cons.1 digits
  obtain ⟨taken, dropped⟩ := takeWhile_append_stop (List.all_eq_true.2 later) stop
  have alpha : d.isAlpha ≠ true := by simp [isAlpha_of_isDigit first]
  simp only [cut, if_neg alpha, if_pos first, taken, dropped]

end Scanner

/-- A text that goes on, after white space, with these digits and with no further one. -/
structure DigitRun (cs gap ds rest : List Char) : Prop where
  text : cs = gap ++ ds ++ rest
  blank : gap.all Scanner.isBlank = true
  nonempty : ds ≠ []
  digits : ∀ d ∈ ds, d.isDigit = true
  maximal : ∀ d ∈ rest.head?, d.isDigit = false

namespace Session

open Scanner

variable {s : Session} {k : Nat} {c : Scanner} {cs gap ds rest : List Char} {line : Nat}

/-- A run of digits is an integer constant if its number is small enough, and else an error that is
said to be too large. -/
theorem scans_digits (has : s.Has k c) (faces : c.Faces cs line) (run : DigitRun cs gap ds rest) :
    let start := line + newlines gap
    if decimal ds ≤ 2147483647 then s.Scans k ⟨.integer, String.ofList ds, start⟩ [] rest start
    else s.Scans k ⟨.error, String.ofList ds, start⟩
      [⟨.lexical, "Integer too large", some start, some c.source.name⟩] rest start := by
  intro start
  obtain ⟨rfl, blank, nonempty, digits, maximal⟩ := run
  obtain ⟨first, more, rfl⟩ := List.exists_cons_of_ne_nil nonempty
  have visible := isBlank_of_isDigit (List.forall_mem_cons.1 digits).1
  rw [List.append_assoc, List.cons_append] at faces
  have scans := scans_visible has faces blank visible
  rw [cut_digits digits maximal, Cut.spelling_checked, newlines_of_digits digits,
    Cut.rest_checked] at scans
  have small := LexicalFault.ofInteger?_eq_none_iff_decimal digits
  cases fault : LexicalFault.ofInteger? (first :: more) with
  | none =>
    rw [if_pos (small.1 fault)]
    rw [fault] at scans
    exact scans
  | some f =>
    rw [if_neg (mt small.2 (by simp [fault]))]
    rw [fault, LexicalFault.eq_largeInteger fault] at scans
    exact scans

end Session

/-! ## values in trees -/

namespace Node

variable {text name spelling : String} {p : Program} {q : Parser} {path : List Step} {line : Int}

/-- What is read from an integer constant of a parsed tree. -/
theorem read_of_reached (h : (Source.ofText text name).parse = .ok p q)
    (reached : (Node.program p).follow path = .ok (.expr (.constant line .integer spelling))) :
    let ds := spelling.toList
    ds ≠ [] ∧ (∀ d ∈ ds, d.isDigit = true) ∧ decimal ds ≤ 2147483647 ∧
      Numeral.read spelling =
        if ds.length ≤ 4300 then .ok (decimal ds) else .error (.tooLong ds.length) := by
  intro ds
  obtain ⟨digits, small⟩ : Numeral.isDigits ds = true ∧ Numeral.natOfDigits ds ≤ _ :=
    ((Grammar.sound_of_parse h).follow reached).wellFormed
  rw [Numeral.isDigits, Bool.and_eq_true, List.all_eq_true] at digits
  have nonempty : ds ≠ [] := by simpa using digits.1
  rw [Numeral.natOfDigits_eq] at small
  exact ⟨nonempty, digits.2, small, Numeral.read_of_digits nonempty digits.2⟩

end Node

open Scanner in
/-- Whatever its length, a run of digits is scanned as an integer constant just if its number is at
most the largest integer, and the comparison of digits that decides it agrees with that of numbers.
An integer constant in a parsed tree has this number as its value, unless it has more digits than
are read: then it has none. -/
theorem integers_by_value (s : Session) (text name : String) :
    (∀ (k : Nat) (c : Scanner) (cs gap ds rest : List Char) (line : Nat),
      s.Has k c → c.Faces cs line → DigitRun cs gap ds rest →
        let start := line + newlines gap
        if decimal ds ≤ 2147483647 then s.Scans k ⟨.integer, String.ofList ds, start⟩ [] rest start
        else s.Scans k ⟨.error, String.ofList ds, start⟩
          [⟨.lexical, "Integer too large", some start, some c.source.name⟩] rest start) ∧
    (∀ ds : List Char, (∀ d ∈ ds, d.isDigit = true) →
      (LexicalFault.ofInteger? ds = none ↔ decimal ds ≤ 2147483647)) ∧
    ∀ (p : Program) (q : Parser) (path : List Node.Step) (line : Int) (spelling : String),
      (Source.ofText text name).parse = .ok p q →
        (Node.program p).follow path = .ok (.expr (.constant line .integer spelling)) →
          let ds := spelling.toList
          ds ≠ [] ∧ (∀ d ∈ ds, d.isDigit = true) ∧ decimal ds ≤ 2147483647 ∧
            Numeral.read spelling =
              if ds.length ≤ 4300 then .ok (decimal ds) else .error (.tooLong ds.length) :=
  ⟨fun _ _ _ _ _ _ _ => Session.scans_digits, fun _ => LexicalFault.ofInteger?_eq_none_iff_decimal,
    fun _ _ _ _ _ => Node.read_of_reached⟩

/-! ## constants without a value -/

namespace Program

/-- A class with one field, which begins as the constant. -/
def oneField (spelling : String) : Program :=
  ⟨1, 1, [⟨1, "A", none, 1, [.field 1 "int" "x" (some (.constant 1 .integer spelling))], none⟩]⟩

theorem source_oneField (spelling : String) :
    (oneField spelling).source 0 0 = "class A \x7b\nint x = " ++ spelling ++ ";\n\x7d\n" := by
  rw [← String.toList_inj]
  simp [oneField, source, ClassDecl.source, ClassDecl.heading, nonempty, Member.lines, Line.render,
    Line.blanks, Expr.source]

/-- The constant stands in the tree of the text. -/
theorem exists_parse_oneField {spelling : String}
    (spells : ConstantKind.Spells .integer spelling) : ∃ p q line,
      (Source.ofText ("class A \x7b\nint x = " ++ spelling ++ ";\n\x7d\n")).parse = .ok p q ∧
      (Node.program p).follow [.field "class_list", .index 0, .field "member_list", .index 0,
        .field "init"] = .ok (.expr (.constant line .integer spelling)) := by
  have valid : (oneField spelling).Valid := by
    simp only [oneField, Program.Valid, ClassDecl.Valid, List.forall_mem_singleton, Member.Valid,
      Option.mem_some_iff, forall_eq', Expr.Valid]
    exact ⟨by decide, by decide, by decide, by decide, spells⟩
  obtain ⟨p, parsed, same⟩ := parse_source_of_faithful valid rfl rfl 0 0
  rw [source_oneField] at parsed
  obtain ⟨q, parsed, -⟩ := Grammar.parse_of_parseText parsed
  -- Only the lines in the tree are not those of the program that was printed.
  obtain ⟨line, classesLine, classes⟩ := p
  obtain ⟨c, rfl, hc⟩ := List.map_eq_singleton_iff.1 (Program.mk.inj same).2.2
  obtain ⟨_, _, _, _, members, _⟩ := c
  obtain ⟨m, rfl, hm⟩ := List.map_eq_singleton_iff.1 (ClassDecl.mk.inj hc).2.2.2.2.1
  cases m with
  | method => cases hm
  | field _ type name init =>
    obtain ⟨e, rfl, he⟩ := Option.map_eq_some_iff.1 (Member.field.inj hm).2.2.2
    cases e with
    | constant line kind spelling =>
      cases he
      exact ⟨_, q, line, parsed, rfl⟩
    | _ => cases he

end Program

theorem decimal_zeros (n : Nat) : decimal (List.replicate n '0') = 0 := by
  have dropped : (List.replicate n '0').dropWhile (· = '0') = [] := by
    rw [List.dropWhile_eq_nil_iff]
    exact fun c hc => by simpa using List.eq_of_mem_replicate hc
  rw [← Numeral.natOfDigits_eq, ← Numeral.natOfDigits_dropZeros, dropped]
  rfl

/-- Zeros are scanned and parsed however many they are, but no more of them are read than of other
digits. -/
theorem exists_unread_zeros {n : Nat} (many : 4300 < n) :
    let zeros := String.ofList (List.replicate n '0')
    decimal zeros.toList = 0 ∧ ∃ p q path line,
      (Source.ofText ("class A \x7b\nint x = " ++ zeros ++ ";\n\x7d\n")).parse = .ok p q ∧
      (Node.program p).follow path = .ok (.expr (.constant line .integer zeros)) ∧
      Numeral.read zeros = .error (.tooLong n) := by
  intro zeros
  have chars : zeros.toList = List.replicate n '0' := String.toList_ofList
  have digits : ∀ d ∈ zeros.toList, d.isDigit = true := by
    rw [chars]
    intro d hd
    rw [List.eq_of_mem_replicate hd]
    rfl
  have nonempty : zeros.toList ≠ [] := by
    rw [chars, Ne, List.replicate_eq_nil_iff]
    omega
  have zero : decimal zeros.toList = 0 := by rw [chars, decimal_zeros]
  have spells : ConstantKind.Spells .integer zeros := by
    refine ⟨?_, ?_⟩
    · simpa [Numeral.isDigits, nonempty] using digits
    · rw [Numeral.natOfDigits_eq, zero]
      exact Nat.zero_le _
  obtain ⟨p, q, line, parsed, reached⟩ := Program.exists_parse_oneField spells
  refine ⟨zero, p, q, _, line, parsed, reached, ?_⟩
  rw [Numeral.read_of_digits nonempty digits, chars, List.length_replicate,
    if_neg (Nat.not_le.2 many)]

/-- The number that is scanned is zero, and it cannot be read. -/
theorem exists_unread_zeros_4301 :
    let zeros := String.ofList (List.replicate 4301 '0')
    decimal zeros.toList = 0 ∧ ∃ p q path line,
      (Source.ofText ("class A \x7b\nint x = " ++ zeros ++ ";\n\x7d\n")).parse = .ok p q ∧
      (Node.program p).follow path = .ok (.expr (.constant line .integer zeros)) ∧
      Numeral.read zeros = .error (.tooLong 4301) :=
  exists_unread_zeros (by decide)

end BantamSyntax
