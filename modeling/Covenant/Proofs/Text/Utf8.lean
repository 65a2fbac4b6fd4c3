import Covenant.Text.Utf8
import Mathlib.Tactic.IntervalCases
/-!
Text is read back from its bytes.
-/

namespace Covenant.Text

theorem toNat_ofNat_of_lt {n : Nat} (h : n < 256) : (UInt8.ofNat n).toNat = n := by
  rw [UInt8.toNat_ofNat', Nat.mod_eq_of_lt h]

/-- The last byte of a character gives it. -/
theorem readFrom_last {begun : Begun} (last : begun.missing = 1) {b : Nat} (least : begun.lowest ≤ b)
    (greatest : b ≤ begun.highest) (byte : b < 256) {c : Char} (bits : begun.bits * 64 + b % 64 = c.toNat)
    (rest : Bytes) : readFrom (some begun) (UInt8.ofNat b :: rest) = c :: readFrom none rest := by
  rw [readFrom, toNat_ofNat_of_lt byte, if_pos ⟨least, greatest⟩]
  simp only [bits, last, Nat.le_refl, if_true, Char.ofNat_toNat]

/-- A byte within a character adds its bits. -/
theorem readFrom_more {begun : Begun} (more : 1 < begun.missing) {b : Nat} (least : begun.lowest ≤ b)
    (greatest : b ≤ begun.highest) (byte : b < 256) (rest : Bytes) :
    readFrom (some begun) (UInt8.ofNat b :: rest) =
      readFrom (some ⟨begun.bits * 64 + b % 64, begun.missing - 1, 0x80, 0xbf⟩) rest := by
  rw [readFrom, toNat_ofNat_of_lt byte, if_pos ⟨least, greatest⟩]
  simp only [Nat.not_le.mpr more, if_false]

/-- The first byte of a longer form. -/
theorem readFrom_first {b : Nat} (byte : b < 256) {begun : Begun} (first : firstByte b = .inr begun)
    (rest : Bytes) : readFrom none (UInt8.ofNat b :: rest) = readFrom (some begun) rest := by
  rw [readFrom, toNat_ofNat_of_lt byte, first]

theorem firstByte_two {n : Nat} (least : 2 ≤ n) (greatest : n < 32) :
    firstByte (n + 192) = .inr ⟨n, 1, 0x80, 0xbf⟩ := by
  interval_cases n <;> rfl

/-- The first byte of a form of three bytes bounds the second one. -/
theorem firstByte_three {n : Nat} (h : n < 16) : firstByte (n + 224) =
    .inr ⟨n, 2, if n = 0 then 0xa0 else 0x80, if n = 13 then 0x9f else 0xbf⟩ := by
  interval_cases n <;> rfl

/-- The first byte of a form of four bytes bounds the second one. -/
theorem firstByte_four {n : Nat} (h : n < 5) : firstByte (n + 240) =
    .inr ⟨n, 3, if n = 0 then 0x90 else 0x80, if n = 4 then 0x8f else 0xbf⟩ := by
  interval_cases n <;> rfl

/-- A character is read back from its bytes. -/
theorem readFrom_encode (c : Char) (rest : Bytes) :
    readFrom none (String.utf8EncodeChar c ++ rest) = c :: readFrom none rest := by
  have valid := c.valid
  have same : c.val.toNat = c.toNat := rfl
  unfold String.utf8EncodeChar
  rw [same]
  simp only [UInt32.isValidChar, Nat.isValidChar, same] at valid
  generalize hn : c.toNat = n at valid ⊢
  dsimp only
  split
  next one =>
    have first : firstByte n = .inl (Char.ofNat n) := by
      rw [firstByte, if_pos (by omega)]
    rw [List.cons_append, readFrom, toNat_ofNat_of_lt (by omega), first, ← hn, Char.ofNat_toNat]
    rfl
  next one =>
    split
    next two =>
      rw [List.cons_append, readFrom_first (by omega) (firstByte_two (by omega) (by omega))]
      exact readFrom_last rfl (by simp) (by simp only; omega) (by omega) (by simp only; omega) rest
    next two =>
      split
      next three =>
        rw [List.cons_append, readFrom_first (by omega) (firstByte_three (by omega)), List.cons_append,
          readFrom_more (by simp) (by simp only; split <;> omega) (by simp only; split <;> omega) (by omega)]
        exact readFrom_last rfl (by simp) (by simp only; omega) (by omega) (by simp only; omega) rest
      next three =>
        rw [List.cons_append, readFrom_first (by omega) (firstByte_four (by omega)), List.cons_append,
          readFrom_more (by simp) (by simp only; split <;> omega) (by simp only; split <;> omega) (by omega),
          List.cons_append, readFrom_more (by simp) (by simp) (by simp only; omega) (by omega)]
        exact readFrom_last rfl (by simp) (by simp only; omega) (by omega) (by simp only; omega) rest

theorem readFrom_utf8 (s : List Char) : readFrom none (s.flatMap String.utf8EncodeChar) = s := by
  induction s with
  | nil => rfl
  | cons c rest ih => rw [List.flatMap_cons, readFrom_encode, ih]

/-- Text is read back from its bytes. -/
theorem ofUtf8_utf8 (s : String) : ofUtf8 (utf8 s) = s := by
  rw [ofUtf8, utf8, readFrom_utf8, String.ofList_toList]

end Covenant.Text
