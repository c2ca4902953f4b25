import BantamSyntax.Text.Utf8

/-!
# Encoded text

The bytes that a text is encoded in are read back as that text. A byte is known by its bounds: a
first byte by the bits it carries over the mark of its length, a later one by six bits over 128.
-/
namespace BantamSyntax.Utf8

variable {n bits more : Nat} {c : Char} {rest : List UInt8}

/-! ## single bytes -/

theorem leading_ofNat (h : n < 256) : leading (.ofNat n) =
    if n < 0x80 then some (0, n)
    else if n < 0xC2 then none
    else if n < 0xE0 then some (1, n - 0xC0)
    else if n < 0xF0 then some (2, n - 0xE0)
    else if n < 0xF5 then some (3, n - 0xF0)
    else none := by
  have value : (UInt8.ofNat n).toNat = n := UInt8.toNat_ofNat_of_lt h
  simp only [leading, value]

theorem leading_one (h : n < 128) : leading (.ofNat n) = some (0, n) := by
  rw [leading_ofNat (by omega)]
  grind

theorem leading_two (low : 2 ≤ n) (high : n < 32) : leading (.ofNat (n + 192)) = some (1, n) := by
  rw [leading_ofNat (by omega)]
  grind

theorem leading_three (h : n < 16) : leading (.ofNat (n + 224)) = some (2, n) := by
  rw [leading_ofNat (by omega)]
  grind

theorem leading_four (h : n < 5) : leading (.ofNat (n + 240)) = some (3, n) := by
  rw [leading_ofNat (by omega)]
  grind

/-- A byte with six bits in the range goes onto the bits before it. -/
theorem continuation_cons {seen : List UInt8} {range : Nat × Nat} (h : n < 64)
    (within : range.1 ≤ n + 128 ∧ n + 128 ≤ range.2) :
    continuation seen range bits (more + 1) (.ofNat (n + 128) :: rest) =
      continuation (seen ++ [.ofNat (n + 128)]) (0x80, 0xBF) (bits * 64 + n) more rest := by
  have value : (UInt8.ofNat (n + 128)).toNat = n + 128 :=
    UInt8.toNat_ofNat_of_lt (show n + 128 < 256 by omega)
  rw [continuation, value, if_pos within, Nat.add_sub_cancel]

/-- A second byte is in range unless the first byte narrows the range further. -/
theorem secondRange_within {first : Nat} (small : first < 256) (h : n < 64)
    (narrow : (first = 0xE0 → 32 ≤ n) ∧ (first = 0xED → n < 32) ∧ (first = 0xF0 → 16 ≤ n) ∧
      (first = 0xF4 → n < 16)) :
    (secondRange (.ofNat first)).1 ≤ n + 128 ∧ n + 128 ≤ (secondRange (.ofNat first)).2 := by
  have value : (UInt8.ofNat first).toNat = first := UInt8.toNat_ofNat_of_lt small
  simp only [secondRange, ← UInt8.toNat_inj, value]
  grind

/-! ## single characters -/

theorem decodeFrom_cons {b : UInt8} {tail : List UInt8} {position : Nat}
    (first : leading b = some (more, bits))
    (others : continuation [b] (secondRange b) bits more rest = .ok (c.toNat, tail)) :
    decodeFrom position (b :: rest) =
      (c :: ·) <$> decodeFrom (position + ((b :: rest).length - tail.length)) tail := by
  rw [decodeFrom, first]
  dsimp only
  split
  · simp_all
  · simp_all

/-- A character is read off the bytes that encode it. -/
theorem decodeFrom_encodeChar {position : Nat} :
    decodeFrom position (String.utf8EncodeChar c ++ rest) =
      (c :: ·) <$> decodeFrom
        (position + ((String.utf8EncodeChar c ++ rest).length - rest.length)) rest := by
  have valid : c.toNat < 0xD800 ∨ 0xDFFF < c.toNat ∧ c.toNat < 0x110000 := c.valid
  have code : c.val.toNat = c.toNat := rfl
  unfold String.utf8EncodeChar
  simp only [code]
  split
  · exact decodeFrom_cons (leading_one (by omega)) (by rw [continuation]; rfl)
  split
  · refine decodeFrom_cons (leading_two (by omega) (by omega)) ?_
    change continuation _ _ _ 1 (_ :: rest) = _
    rw [continuation_cons (by omega) (secondRange_within (by omega) (by omega) (by omega)),
      continuation, show c.toNat / 64 % 32 * 64 + c.toNat % 64 = c.toNat by omega]
  split
  · refine decodeFrom_cons (leading_three (by omega)) ?_
    change continuation _ _ _ 2 (_ :: _ :: rest) = _
    rw [continuation_cons (by omega) (secondRange_within (by omega) (by omega) (by omega)),
      continuation_cons (by omega) (by dsimp only; omega), continuation,
      show (c.toNat / 4096 % 16 * 64 + c.toNat / 64 % 64) * 64 + c.toNat % 64 = c.toNat by omega]
  · refine decodeFrom_cons (leading_four (by omega)) ?_
    change continuation _ _ _ 3 (_ :: _ :: _ :: rest) = _
    rw [continuation_cons (by omega) (secondRange_within (by omega) (by omega) (by omega)),
      continuation_cons (by omega) (by dsimp only; omega),
      continuation_cons (by omega) (by dsimp only; omega), continuation,
      show ((c.toNat / 262144 % 8 * 64 + c.toNat / 4096 % 64) * 64 + c.toNat / 64 % 64) * 64 +
        c.toNat % 64 = c.toNat by omega]

/-! ## texts -/

theorem decodeFrom_encode (text : List Char) (position : Nat) :
    decodeFrom position (text.flatMap String.utf8EncodeChar) = .ok text := by
  induction text generalizing position with
  | nil => rw [List.flatMap_nil, decodeFrom]
  | cons c text ih => rw [List.flatMap_cons, decodeFrom_encodeChar, ih]; rfl

/-- The bytes of a string are read as its characters. -/
theorem decode_toUTF8 (text : String) : decode text.toUTF8.data.toList = .ok text.toList := by
  rw [String.toUTF8_eq_toByteArray, ← String.utf8Encode_toList, List.utf8Encode,
    List.toList_data_toByteArray]
  exact decodeFrom_encode text.toList 0

end BantamSyntax.Utf8
