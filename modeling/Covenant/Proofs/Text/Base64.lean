import Covenant.Proofs.Except
import Covenant.Text.Base64
import Mathlib.Data.List.TakeWhile
/-!
Bytes that are written in base 64 are read back, by the strict reader in the standard alphabet and by
the lenient one in the alphabet for addresses.
-/

namespace Covenant.Text.Base64

/-! ## Characters -/

theorem value_char {n : Nat} (h : n < 64) : value? (standard.char n) = some n := by
  have all : ∀ n < 64, value? (standard.char n) = some n := by decide
  exact all n h

theorem char_ne_padding {n : Nat} (h : n < 64) : standard.char n ≠ '=' := by
  have all : ∀ n < 64, standard.char n ≠ '=' := by decide
  exact all n h

/-- The lenient reader takes the characters of one alphabet for those of the other. -/
def standardOf (c : Char) : Char := if c = '-' then '+' else if c = '_' then '/' else c

theorem standardOf_char {n : Nat} (h : n < 64) : standardOf (urlSafe.char n) = standard.char n := by
  have all : ∀ n < 64, standardOf (urlSafe.char n) = standard.char n := by decide
  exact all n h

theorem char_ascii {n : Nat} (h : n < 64) :
    (standard.char n).toNat < 0x80 ∧ (urlSafe.char n).toNat < 0x80 := by
  have all : ∀ n < 64, (standard.char n).toNat < 0x80 ∧ (urlSafe.char n).toNat < 0x80 := by decide
  exact all n h

/-- The characters that an alphabet is written with. -/
def Alphabet.Writes (a : Alphabet) (c : Char) : Prop := c = '=' ∨ ∃ n < 64, c = a.char n

theorem writes_of_mem {a : Alphabet} : ∀ (bytes : Bytes) {c : Char}, c ∈ writeChars a bytes → a.Writes c
  | [], c, h => by cases h
  | [x], c, h => by
    have hx := x.toNat_lt
    simp only [writeChars, List.mem_cons, List.not_mem_nil, or_false] at h
    rcases h with rfl | rfl | rfl | rfl
    · exact .inr ⟨_, by omega, rfl⟩
    · exact .inr ⟨_, by omega, rfl⟩
    · exact .inl rfl
    · exact .inl rfl
  | [x, y], c, h => by
    have hx := x.toNat_lt
    have hy := y.toNat_lt
    simp only [writeChars, List.mem_cons, List.not_mem_nil, or_false] at h
    rcases h with rfl | rfl | rfl | rfl
    · exact .inr ⟨_, by omega, rfl⟩
    · exact .inr ⟨_, by omega, rfl⟩
    · exact .inr ⟨_, by omega, rfl⟩
    · exact .inl rfl
  | x :: y :: z :: rest, c, h => by
    have hx := x.toNat_lt
    have hy := y.toNat_lt
    have hz := z.toNat_lt
    simp only [writeChars, List.mem_cons] at h
    rcases h with rfl | rfl | rfl | rfl | h
    · exact .inr ⟨_, by omega, rfl⟩
    · exact .inr ⟨_, by omega, rfl⟩
    · exact .inr ⟨_, by omega, rfl⟩
    · exact .inr ⟨_, by omega, rfl⟩
    · exact writes_of_mem rest h

theorem length_writeChars (a : Alphabet) : ∀ bytes : Bytes, (writeChars a bytes).length % 4 = 0
  | [] => rfl
  | [_] => by simp [writeChars]
  | [_, _] => by simp [writeChars]
  | _ :: _ :: _ :: rest => by
    have ih := length_writeChars a rest
    simp only [writeChars, List.length_cons]
    omega

theorem map_writeChars : ∀ bytes : Bytes,
    (writeChars urlSafe bytes).map standardOf = writeChars standard bytes
  | [] => rfl
  | [x] => by
    have hx := x.toNat_lt
    simp only [writeChars, List.map_cons, List.map_nil]
    rw [standardOf_char (by omega), standardOf_char (by omega)]
    rfl
  | [x, y] => by
    have hx := x.toNat_lt
    have hy := y.toNat_lt
    simp only [writeChars, List.map_cons, List.map_nil]
    rw [standardOf_char (by omega), standardOf_char (by omega), standardOf_char (by omega)]
    rfl
  | x :: y :: z :: rest => by
    have hx := x.toNat_lt
    have hy := y.toNat_lt
    have hz := z.toNat_lt
    simp only [writeChars, List.map_cons]
    rw [standardOf_char (by omega), standardOf_char (by omega), standardOf_char (by omega),
      standardOf_char (by omega), map_writeChars rest]

/-! ## Groups -/

theorem readFrom_char {strict : Bool} {p : Progress} (unpadded : p.padded = false) {n : Nat} (h : n < 64)
    (rest : List Char) :
    readFrom strict p (standard.char n :: rest) = readFrom strict (p.push n) rest := by
  rw [readFrom, if_neg (char_ne_padding h), value_char h]
  simp only [unpadded, Bool.and_false, Bool.false_eq_true, if_false]

/-- A byte is put together from its bits in two characters. -/
theorem ofNat_of_bits {x : UInt8} {n : Nat} (h : n = x.toNat) : UInt8.ofNat n = x := by
  rw [h, UInt8.ofNat_toNat]

/-- What is written is read from the start of a group on. -/
theorem readFrom_writeChars (strict : Bool) : ∀ (bytes read : Bytes),
    readFrom strict { read } (writeChars standard bytes) = .ok (read.reverse ++ bytes)
  | [], read => by
    rw [writeChars, readFrom, if_pos rfl, List.append_nil]
  | [x], read => by
    have hx := x.toNat_lt
    have first : UInt8.ofNat (x.toNat / 4 * 4 + x.toNat % 4 * 16 / 16) = x := ofNat_of_bits (by omega)
    rw [writeChars, readFrom_char rfl (by omega), readFrom_char rfl (by omega)]
    simp only [Progress.push, first]
    rw [readFrom, if_pos rfl, if_neg (by simp)]
    dsimp only
    rw [readFrom, if_pos rfl, if_pos (by simp)]
    simp
  | [x, y], read => by
    have hx := x.toNat_lt
    have hy := y.toNat_lt
    have first : UInt8.ofNat (x.toNat / 4 * 4 + (x.toNat % 4 * 16 + y.toNat / 16) / 16) = x :=
      ofNat_of_bits (by omega)
    have second : UInt8.ofNat ((x.toNat % 4 * 16 + y.toNat / 16) % 16 * 16 + y.toNat % 16 * 4 / 4) = y :=
      ofNat_of_bits (by omega)
    rw [writeChars, readFrom_char rfl (by omega), readFrom_char rfl (by omega), readFrom_char rfl (by omega)]
    simp only [Progress.push, first, second]
    rw [readFrom, if_pos rfl, if_pos (by simp)]
    simp
  | x :: y :: z :: rest, read => by
    have hx := x.toNat_lt
    have hy := y.toNat_lt
    have hz := z.toNat_lt
    have first : UInt8.ofNat (x.toNat / 4 * 4 + (x.toNat % 4 * 16 + y.toNat / 16) / 16) = x :=
      ofNat_of_bits (by omega)
    have second : UInt8.ofNat ((x.toNat % 4 * 16 + y.toNat / 16) % 16 * 16 +
        (y.toNat % 16 * 4 + z.toNat / 64) / 4) = y := ofNat_of_bits (by omega)
    have third : UInt8.ofNat ((y.toNat % 16 * 4 + z.toNat / 64) % 4 * 64 + z.toNat % 64) = z :=
      ofNat_of_bits (by omega)
    rw [writeChars, readFrom_char rfl (by omega), readFrom_char rfl (by omega), readFrom_char rfl (by omega),
      readFrom_char rfl (by omega)]
    simp only [Progress.push, first, second, third]
    rw [readFrom_writeChars strict rest]
    simp

/-! ## Texts -/

theorem notAscii_eq_none {s : List Char} (h : ∀ c ∈ s, c.toNat < 0x80) : notAscii? s = none := by
  have whole : s.takeWhile (fun c => decide (c.toNat < 0x80)) = s :=
    List.takeWhile_eq_self_iff.mpr fun c hc => decide_eq_true (h c hc)
  simp [notAscii?, whole]

/-- The strict reader gives the bytes that are written in the standard alphabet. -/
theorem readStrict_write (bytes : Bytes) : readStrict (write standard bytes).toList = .ok bytes := by
  rw [write, String.toList_ofList]
  have ascii : ∀ c ∈ writeChars standard bytes, c.toNat < 0x80 := by
    intro c hc
    rcases writes_of_mem bytes hc with rfl | ⟨n, hn, rfl⟩
    · decide
    · exact (char_ascii hn).1
  have start : (writeChars standard bytes).head? ≠ some '=' := by
    intro padding
    match bytes with
    | [] => cases padding
    | [x] | [x, y] | x :: y :: z :: rest =>
      have hx := x.toNat_lt
      exact char_ne_padding (n := x.toNat / 4) (by omega) (Option.some.inj padding)
  rw [readStrict, notAscii_eq_none ascii]
  dsimp only
  rw [if_neg start]
  exact readFrom_writeChars true bytes []

/-- The lenient reader gives the bytes that are written in the alphabet for addresses. -/
theorem readLenient_write (bytes : Bytes) : readLenient (write urlSafe bytes).toList = .ok bytes := by
  rw [write, String.toList_ofList]
  have ascii : ∀ c ∈ writeChars urlSafe bytes, c.toNat < 0x80 := by
    intro c hc
    rcases writes_of_mem bytes hc with rfl | ⟨n, hn, rfl⟩
    · decide
    · exact (char_ascii hn).2
  rw [readLenient, notAscii_eq_none ascii]
  simp only [length_writeChars, Nat.sub_zero, Nat.mod_self, List.replicate_zero, List.append_nil]
  exact (congrArg (readFrom false {}) (map_writeChars bytes)).trans (readFrom_writeChars false bytes [])

end Covenant.Text.Base64
