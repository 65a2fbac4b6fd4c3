import Covenant.Proofs.Json.Numbers
/-!
Reading JSON text: strings, words and numbers that have been written are read back.
-/

namespace Covenant.Json

open Decimal

/-! ## Strings -/

theorem hexFour_hexNatural {n : Nat} (h : n < 0x20) (rest : List Char) :
    hexFour (Text.hexNatural 4 n ++ rest) = some n ∧ (Text.hexNatural 4 n ++ rest).drop 4 = rest := by
  interval_cases n <;> exact ⟨rfl, rfl⟩

theorem numberEscape_control {c : Char} (h : c.toNat < 0x20) {rest : List Char} (more : rest ≠ [])
    (position : Nat) : numberEscape position (Text.hexNatural 4 c.toNat ++ rest) = .ok (c, 5) := by
  obtain ⟨digits, after⟩ := hexFour_hexNatural h rest
  have nonempty : rest.isEmpty = false := by
    cases rest with
    | nil => exact absurd rfl more
    | cons => rfl
  have high : isHighHalf c.toNat = false := by
    simp only [isHighHalf, Bool.and_eq_false_iff, decide_eq_false_iff_not]
    omega
  have low : isLowHalf c.toNat = false := by
    simp only [isLowHalf, Bool.and_eq_false_iff, decide_eq_false_iff_not]
    omega
  simp only [numberEscape, after, nonempty, digits, high, low, unitChar, Bool.false_and, Bool.or_self,
    Bool.false_eq_true, if_false, Char.ofNat_toNat]

/-- One character is read, whatever stands for it, when something follows. -/
theorem stringFrom_escaped (start fuel position : Nat) (read : List Char) (c : Char) {rest : List Char}
    (more : rest ≠ []) : ∃ position', stringFrom start (fuel + 1) ⟨position, escaped c ++ rest⟩ read =
      stringFrom start fuel ⟨position', rest⟩ (c :: read) := by
  obtain ⟨d, tail, rfl⟩ := List.exists_cons_of_ne_nil more
  unfold escaped
  split_ifs with quote backslash lineFeed carriageReturn tab backspace formFeed control
  · exact ⟨position + 2, by rw [quote]; rfl⟩
  · exact ⟨position + 2, by rw [backslash]; rfl⟩
  · exact ⟨position + 2, by rw [lineFeed]; rfl⟩
  · exact ⟨position + 2, by rw [carriageReturn]; rfl⟩
  · exact ⟨position + 2, by rw [tab]; rfl⟩
  · have eq : c = Char.ofNat 8 := by rw [← backspace, Char.ofNat_toNat]
    exact ⟨position + 2, by rw [eq]; rfl⟩
  · have eq : c = Char.ofNat 12 := by rw [← formFeed, Char.ofNat_toNat]
    exact ⟨position + 2, by rw [eq]; rfl⟩
  · refine ⟨position + 6, ?_⟩
    have escape := numberEscape_control control more (position + 1)
    have after := (hexFour_hexNatural control (d :: tail)).2
    simp only [List.cons_append, stringFrom, escape]
    exact congrArg (fun rest => stringFrom start fuel ⟨position + 6, rest⟩ (c :: read)) after
  · refine ⟨position + 1, ?_⟩
    rw [List.singleton_append, stringFrom]
    split
    next eq => cases eq
    next eq => exact absurd (List.cons.inj eq).1 quote
    next eq => exact absurd (List.cons.inj eq).1 backslash
    next eq => exact absurd (List.cons.inj eq).1 backslash
    next eq => exact absurd (List.cons.inj eq).1 backslash
    next char rest _ _ _ _ _ eq =>
      obtain ⟨rfl, rfl⟩ := List.cons.inj eq
      rw [if_neg control]
      rfl

/-- A string that has been written is read up to its closing quote. -/
theorem stringFrom_written (start : Nat) (s : List Char) (rest : List Char) (fuel position : Nat)
    (read : List Char) (enough : s.length < fuel) :
    ∃ position', stringFrom start fuel ⟨position, s.flatMap escaped ++ '"' :: rest⟩ read =
      .ok (String.ofList (read.reverse ++ s), ⟨position', rest⟩) := by
  induction s generalizing fuel position read with
  | nil =>
    obtain ⟨fuel, rfl⟩ := Nat.exists_eq_succ_of_ne_zero (Nat.ne_of_gt enough)
    exact ⟨position + 1, by rw [List.append_nil]; rfl⟩
  | cons c s ih =>
    obtain ⟨fuel, rfl⟩ := Nat.exists_eq_succ_of_ne_zero (Nat.ne_of_gt (Nat.zero_lt_of_lt enough))
    have more : s.flatMap escaped ++ '"' :: rest ≠ [] := by simp
    obtain ⟨position₁, first⟩ := stringFrom_escaped start fuel position read c more
    obtain ⟨position₂, others⟩ := ih fuel position₁ (c :: read) (by
      rw [List.length_cons] at enough
      omega)
    refine ⟨position₂, ?_⟩
    rw [List.flatMap_cons, List.append_assoc, first, others]
    simp

theorem length_le_flatMap_escaped (s : List Char) : s.length ≤ (s.flatMap escaped).length := by
  induction s with
  | nil => exact Nat.le_refl _
  | cons c s ih =>
    have one : 1 ≤ (escaped c).length := by
      unfold escaped
      split_ifs <;> simp
    rw [List.flatMap_cons, List.length_append, List.length_cons]
    omega

theorem string_toList (s : String) : (string s).toList = '"' :: (s.toList.flatMap escaped ++ ['"']) := by
  simp [string]

/-- A string that has been written is read from its opening quote on. -/
theorem stringFrom_string (s : String) (position : Nat) (after : List Char) :
    ∃ position', stringFrom position ((string s).toList ++ after).length
      (Cursor.drop ⟨position, (string s).toList ++ after⟩ 1) [] = .ok (s, ⟨position', after⟩) := by
  rw [string_toList]
  obtain ⟨position', read⟩ := stringFrom_written position s.toList after
    ('"' :: (s.toList.flatMap escaped ++ ['"']) ++ after).length (position + 1) [] (by
      have := length_le_flatMap_escaped s.toList
      simp only [List.length_cons, List.length_append]
      omega)
  rw [List.reverse_nil, List.nil_append, String.ofList_toList] at read
  refine ⟨position', Eq.trans ?_ read⟩
  rw [Cursor.drop, List.cons_append, List.drop_one, List.tail_cons, List.append_assoc, List.singleton_append]

theorem scalar_string (s : String) (position : Nat) (after : List Char) :
    ∃ position', scalar ⟨position, (string s).toList ++ after⟩ = .ok (.text s, ⟨position', after⟩) := by
  obtain ⟨position', read⟩ := stringFrom_string s position after
  refine ⟨position', ?_⟩
  rw [string_toList, List.cons_append] at read ⊢
  simp only [scalar, read]
  rfl

/-! ## Values -/

/-- A text that starts as a number does is read as one. -/
theorem scalar_number {c : Char} {rest : List Char} (digit : IsDigit c) (negative : Bool) (position : Nat) :
    scalar ⟨position, signed negative (c :: rest)⟩ = number ⟨position, signed negative (c :: rest)⟩ := by
  have others : ∀ d : Char, ¬ IsDigit d → d ≠ c := fun d h eq => h (eq ▸ digit)
  have noWord : (words.find? fun w => w.1.isPrefixOf (signed negative (c :: rest))) = none := by
    refine List.find?_eq_none.mpr fun w hw => ?_
    fin_cases hw <;> cases negative <;>
      simp [signed, List.isPrefixOf, others _ (by decide : ¬ IsDigit 'n'), others _ (by decide : ¬ IsDigit 't'),
        others _ (by decide : ¬ IsDigit 'f'), others _ (by decide : ¬ IsDigit 'N'),
        others _ (by decide : ¬ IsDigit 'I'), others _ (by decide : ¬ IsDigit '-')]
  unfold scalar
  split
  next eq =>
    cases negative with
    | true => cases eq
    | false => exact absurd (List.cons.inj eq).1.symm (others _ (by decide))
  next => rw [noWord]

/-- Data that JSON text can hold on a line of code. -/
def Legible : Datum → Prop
  | .null | .boolean _ | .text _ => True
  | .integer i => (digits i.natAbs).length ≤ Text.digitLimit
  | .float x => x.isNan = false
  | .bytes _ | .key _ | .list _ | .record _ => False

theorem IsNumber.scalar {whole fraction exponent : List Char} {power : Int}
    (h : IsNumber whole fraction exponent power) (negative : Bool) (position : Nat) (after : List Char) :
    scalar ⟨position, signed negative (whole ++ (pointed fraction ++ exponent)) ++ after⟩ =
      number ⟨position, signed negative (whole ++ (pointed fraction ++ exponent)) ++ after⟩ := by
  obtain ⟨c, rest, start, digit⟩ := h.head
  rw [signed_append, start, List.cons_append]
  exact scalar_number digit negative position

/-- The text of a finite double is a number that is read as the double. -/
theorem float_isNumber (negative : Bool) (r : Fin 0x7ff0000000000001) (finite : r.val ≠ binary64.top) :
    ∃ whole fraction exponent power, IsNumber whole fraction exponent power ∧
      (floatStyle.write (.number negative r)).toList =
        signed negative (whole ++ (pointed fraction ++ exponent)) ∧
      ∀ position after, Ends after → ∃ position',
        number ⟨position, signed negative (whole ++ (pointed fraction ++ exponent)) ++ after⟩ =
          .ok (.float (.number negative r), ⟨position', after⟩) := by
  have below : r.val ≤ binary64.top := Nat.le_of_lt_succ r.isLt
  by_cases zero : r.val = 0
  · have isNumber : IsNumber ['0'] ['0'] [] 0 := by
      refine ⟨?_, by simp, fun _ => rfl, ?_, isExponent_none⟩ <;>
      · simp only [List.mem_singleton]
        rintro c rfl
        decide
    refine ⟨['0'], ['0'], [], 0, isNumber, ?_, fun position after ends => ?_⟩
    · unfold Style.write
      simp only [if_neg finite, if_pos zero]
      cases negative <;> rfl
    · obtain ⟨position', read⟩ := isNumber.read negative position ends
      refine ⟨position', ?_⟩
      rw [signed_append]
      refine read.trans ?_
      have eq : r = ⟨0, by decide⟩ := Fin.ext zero
      rw [eq]
      rfl
  · have nonzero := shortest_coefficient_ne_zero below zero
    obtain ⟨whole, fraction, exponent, power, text, parts, -⟩ := shows_layout
      (fun c hc => isDigit_of_mem_significant hc) (significant_ne_nil nonzero) (head_significant nonzero) floatStyle
      ((digits (shortest r.val).coefficient).length + (shortest r.val).exponent)
    have layout : floatStyle.positive r.val = whole ++ (pointed fraction ++ exponent) := by
      rw [Style.positive, text]
    refine ⟨whole, fraction, exponent, power, parts, ?_, fun position after ends => ?_⟩
    · unfold Style.write
      simp only [if_neg finite, if_neg zero, layout]
      cases negative <;> simp [signed]
    · rw [← layout]
      exact number_positive floatStyle below zero negative position ends

/-- What is written on a line of code is read back whole. -/
theorem scalar_write {d : Datum} (h : Legible d) (position : Nat) {after : List Char} (ends : Ends after) :
    ∃ position', scalar ⟨position, (write d).toList ++ after⟩ = .ok (d, ⟨position', after⟩) := by
  cases d with
  | null => exact ⟨position + 4, rfl⟩
  | boolean b => cases b <;> exact ⟨_, rfl⟩
  | integer i =>
    obtain ⟨position', read⟩ := number_integer i position ends
    rw [if_neg (Nat.not_lt.mpr h)] at read
    refine ⟨position', ?_⟩
    have scalar := (isNumber_digits i.natAbs).scalar (i < 0) position after
    rw [pointed, if_pos rfl, List.append_nil, List.append_nil, ← integer_toList] at scalar
    rw [write, ← read, scalar]
  | float x =>
    cases x with
    | nan => cases h
    | number negative r =>
      by_cases infinite : r.val = binary64.top
      · obtain rfl : r = ⟨binary64.top, by decide⟩ := Fin.ext infinite
        cases negative <;> exact ⟨_, rfl⟩
      · obtain ⟨whole, fraction, exponent, power, parts, text, read⟩ := float_isNumber negative r infinite
        obtain ⟨position', read⟩ := read position after ends
        exact ⟨position', by rw [write, text, parts.scalar, read]⟩
  | text s => exact scalar_string s position after
  | bytes | key | list | record => cases h

/-- Where the text of what stands on a line of code begins, no array, object or blank does. -/
theorem exists_write_cons {d : Datum} (h : Legible d) : ∃ c s, (write d).toList = c :: s ∧
    c ∉ ['[', ']', '\x7b', '\x7d', ' ', '\t', '\n', '\r', Char.ofNat 0xfeff] := by
  have digit : ∀ c, IsDigit c →
      c ∉ ['[', ']', '\x7b', '\x7d', ' ', '\t', '\n', '\r', Char.ofNat 0xfeff] := by
    intro c hc mem
    fin_cases mem <;> exact absurd hc (by decide)
  have number : ∀ negative c s, IsDigit c → ∃ c' s', signed negative (c :: s) = c' :: s' ∧
      c' ∉ ['[', ']', '\x7b', '\x7d', ' ', '\t', '\n', '\r', Char.ofNat 0xfeff] := by
    intro negative c s hc
    cases negative with
    | true => exact ⟨'-', _, rfl, by decide⟩
    | false => exact ⟨c, s, rfl, digit c hc⟩
  cases d with
  | null => exact ⟨_, _, rfl, by decide⟩
  | boolean b => cases b <;> exact ⟨_, _, rfl, by decide⟩
  | integer i =>
    obtain ⟨c, rest, start, digit⟩ := (isNumber_digits i.natAbs).head
    rw [write, integer_toList, start]
    exact number _ c rest digit
  | float x =>
    cases x with
    | nan => cases h
    | number negative r =>
      by_cases infinite : r.val = binary64.top
      · obtain rfl : r = ⟨binary64.top, by decide⟩ := Fin.ext infinite
        cases negative <;> exact ⟨_, _, rfl, by decide⟩
      · obtain ⟨whole, fraction, exponent, power, parts, text, -⟩ := float_isNumber negative r infinite
        obtain ⟨c, rest, start, digit⟩ := parts.head
        rw [write, text, start]
        exact number _ c _ digit
  | text s => exact ⟨_, _, string_toList s, by decide⟩
  | bytes | key | list | record => cases h

end Covenant.Json
