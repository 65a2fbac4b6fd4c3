import Covenant.Number.Decimal
import Covenant.Proofs.Number.Rounding
/-!
Decimal numbers and doubles: a decimal number reads as the double nearest to it, and the digits that
are written for a double read back to it.
-/

namespace Covenant

theorem nearest_of_large {v : ℚ} (h : 2 ^ (1024 : Int) ≤ v) : binary64.nearest v = binary64.top := by
  have positive : 0 < v := lt_of_lt_of_le (by positivity) h
  have log : 1024 ≤ Int.log 2 v := (Int.zpow_le_iff_le_log (by norm_num) positive).mp (by exact_mod_cast h)
  have last : binary64.lastExponent v = Int.log 2 v - 52 :=
    max_eq_right (by simp only [binary64]; omega)
  have power : (2 : ℚ) ^ Int.log 2 v ≤ v := by
    exact_mod_cast Int.zpow_log_le_self (b := 2) (by norm_num) positive
  have whole : 2 ^ 52 ≤ roundHalf (v * 2 ^ (-binary64.lastExponent v)) := by
    have floor : 2 ^ 52 ≤ ⌊v * 2 ^ (-binary64.lastExponent v)⌋₊ := by
      refine Nat.le_floor ?_
      rw [last, zpow_neg, ← div_eq_mul_inv, le_div_iff₀ (zpow_pos (by norm_num) _)]
      calc (((2 ^ 52 : Nat) : ℚ)) * 2 ^ (Int.log 2 v - 52) = 2 ^ (52 : Int) * 2 ^ (Int.log 2 v - 52) := by
            norm_num
        _ = 2 ^ Int.log 2 v := by rw [← zpow_add₀ (by norm_num), add_sub_cancel]
        _ ≤ v := power
    unfold roundHalf
    split <;> omega
  rw [BinaryFormat.nearest, if_neg positive.ne']
  refine min_eq_left ?_
  rw [last] at whole ⊢
  simp only [BinaryFormat.top, binary64, Nat.shiftLeft_eq]
  omega

theorem nearest_of_small {v : ℚ} (positive : 0 < v) (h : v < 2 ^ (-1075 : Int)) : binary64.nearest v = 0 := by
  have log : Int.log 2 v < -1075 := (Int.lt_zpow_iff_log_lt (by norm_num) positive).mp (by exact_mod_cast h)
  have last : binary64.lastExponent v = -1074 := max_eq_left (by simp only [binary64]; omega)
  have below : v * 2 ^ (1074 : Int) < 1 / 2 := calc
    v * 2 ^ (1074 : Int) < 2 ^ (-1075 : Int) * 2 ^ (1074 : Int) :=
      mul_lt_mul_of_pos_right h (zpow_pos (by norm_num) _)
    _ = 2 ^ (-1 : Int) := by rw [← zpow_add₀ (by norm_num)]; norm_num
    _ = 1 / 2 := by norm_num
  have rounded : roundHalf (v * 2 ^ (1074 : Int)) = 0 := by
    generalize v * 2 ^ (1074 : Int) = w at below
    have none : ⌊w⌋₊ = 0 := by
      refine Nat.floor_eq_zero.mpr ?_
      linarith
    rw [roundHalf, none, Nat.cast_zero, sub_zero, if_neg]
    rintro (more | ⟨half, -⟩) <;> linarith
  have lowest : binary64.lowestExponent = -1074 := rfl
  rw [BinaryFormat.nearest, if_neg positive.ne', last, lowest, neg_neg, rounded]
  decide

theorem BinaryFormat.nearest_lt (v : ℚ) : binary64.nearest v < 0x7ff0000000000001 := by
  unfold nearest
  split
  · omega
  · exact Nat.lt_succ_of_le (Nat.min_le_left _ _)

/-- The double nearest to a rational number, with a sign. -/
def Double.ofRational (negative : Bool) (v : ℚ) : Double :=
  .number negative ⟨binary64.nearest v, BinaryFormat.nearest_lt v⟩

theorem Double.ofRational_eq {v : ℚ} {r : Fin 0x7ff0000000000001} (negative : Bool)
    (h : binary64.nearest v = r.val) : Double.ofRational negative v = .number negative r := by
  rw [Double.ofRational]
  congr 1
  exact Fin.ext h

theorem two_power_lt : (2 : ℚ) ^ (1024 : Int) ≤ 10 ^ (310 : Int) := by
  have power : 2 ^ 1024 ≤ 10 ^ 310 := by decide +kernel
  exact_mod_cast power

theorem ten_power_lt : (10 : ℚ) ^ (-330 : Int) < 2 ^ (-1075 : Int) := by
  have power : (2 : ℚ) ^ 1075 < 10 ^ 330 := by
    have power : 2 ^ 1075 < 10 ^ 330 := by decide +kernel
    exact_mod_cast power
  rw [zpow_neg, zpow_neg]
  exact inv_strictAnti₀ (by positivity) (by exact_mod_cast power)

namespace Decimal

/-- The shortcuts at both ends of the format give what the quotient would. -/
theorem toDouble_eq (negative : Bool) (m : Nat) (e : Int) :
    toDouble negative m e = Double.ofRational negative (m * 10 ^ e) := by
  by_cases zero : m = 0
  · simp only [toDouble, zero, if_true, Nat.cast_zero, zero_mul, Double.ofRational, Double.zero,
      BinaryFormat.nearest]
  have whole : (1 : ℚ) ≤ m := by exact_mod_cast Nat.one_le_iff_ne_zero.mpr zero
  have positive : (0 : ℚ) < m := by linarith
  rw [toDouble, if_neg zero]
  by_cases large : 310 ≤ e
  · have bound : (2 : ℚ) ^ (1024 : Int) ≤ m * 10 ^ e := calc
      (2 : ℚ) ^ (1024 : Int) ≤ 10 ^ (310 : Int) := two_power_lt
      _ ≤ 10 ^ e := zpow_le_zpow_right₀ (by norm_num) large
      _ = 1 * 10 ^ e := (one_mul _).symm
      _ ≤ m * 10 ^ e := by gcongr
    rw [if_pos large]
    exact (Double.ofRational_eq negative (nearest_of_large bound)).symm
  rw [if_neg large]
  by_cases small : e + ((m.log2 / 3 + 1 : Nat) : Int) < -330
  · have digits : (m : ℚ) < 10 ^ (m.log2 / 3 + 1) := by
      have power : m < 10 ^ (m.log2 / 3 + 1) := calc
        m < 2 ^ (m.log2 + 1) := Nat.lt_log2_self
        _ ≤ 2 ^ (3 * (m.log2 / 3 + 1)) := Nat.pow_le_pow_right (by decide) (by omega)
        _ = 8 ^ (m.log2 / 3 + 1) := by rw [Nat.pow_mul]
        _ ≤ 10 ^ (m.log2 / 3 + 1) := Nat.pow_le_pow_left (by decide) _
      exact_mod_cast power
    have bound : (m : ℚ) * 10 ^ e < 2 ^ (-1075 : Int) := calc
      (m : ℚ) * 10 ^ e < 10 ^ (m.log2 / 3 + 1) * 10 ^ e :=
        mul_lt_mul_of_pos_right digits (zpow_pos (by norm_num) e)
      _ = 10 ^ (e + ((m.log2 / 3 + 1 : Nat) : Int)) := by
        rw [← zpow_natCast, ← zpow_add₀ (by norm_num), add_comm]
      _ ≤ 10 ^ (-330 : Int) := zpow_le_zpow_right₀ (by norm_num) small.le
      _ < 2 ^ (-1075 : Int) := ten_power_lt
    rw [if_pos small]
    exact (Double.ofRational_eq negative
      (nearest_of_small (mul_pos positive (zpow_pos (by norm_num) e)) bound)).symm
  · rw [if_neg small]
    have power : Nat.pow 10 (-e).toNat ≠ 0 := (Nat.pow_pos (by decide)).ne'
    have ratio : ((m * Nat.pow 10 e.toNat : Nat) : ℚ) / (Nat.pow 10 (-e).toNat : Nat) = m * 10 ^ e := by
      simp only [Nat.pow_eq, Nat.cast_mul, Nat.cast_pow, Nat.cast_ofNat]
      rcases le_total 0 e with h | h
      · have none : (-e).toNat = 0 := by omega
        rw [none, pow_zero, div_one, ← zpow_natCast, Int.toNat_of_nonneg h]
      · have none : e.toNat = 0 := by omega
        rw [none, pow_zero, mul_one, div_eq_mul_inv, ← zpow_natCast, Int.toNat_of_nonneg (by omega),
          zpow_neg, inv_inv]
    rw [← ratio]
    exact (Double.ofRational_eq negative (binary64.rank_eq_nearest _ power).symm).symm

/-! ## Digits -/

/-- A digit as numbers are written and read. -/
def IsDigit (c : Char) : Prop := '0' ≤ c ∧ c ≤ '9'

instance (c : Char) : Decidable (IsDigit c) := inferInstanceAs (Decidable (_ ∧ _))

theorem isDigit_of_mem_digits {n : Nat} {c : Char} (h : c ∈ digits n) : IsDigit c := by
  have digit := Nat.isDigit_of_mem_toDigits (by decide) (by decide) h
  simp only [Char.isDigit, Bool.and_eq_true, decide_eq_true_eq] at digit
  exact digit

theorem value_digits (n : Nat) : value (digits n) = n := Nat.ofDigitChars_ten_toDigits

theorem digits_ne_nil (n : Nat) : digits n ≠ [] := Nat.toDigits_ne_nil

theorem value_append (a b : List Char) : value (a ++ b) = value a * 10 ^ b.length + value b := by
  have from_any : ∀ (b : List Char) (n : Nat), b.foldl (fun n c => 10 * n + (c.toNat - '0'.toNat)) n =
      n * 10 ^ b.length + value b := by
    intro b
    induction b with
    | nil => intro n; simp [value]
    | cons c b ih =>
      intro n
      have first := ih (10 * n + (c.toNat - '0'.toNat))
      have alone := ih (10 * 0 + (c.toNat - '0'.toNat))
      simp only [value, List.foldl_cons, List.length_cons, pow_succ] at first alone ⊢
      rw [first, alone]
      ring
  rw [value, List.foldl_append]
  exact from_any b _

theorem value_zeros (n : Nat) : value (zeros n) = 0 := by
  induction n with
  | zero => rfl
  | succ n ih =>
    have split : zeros (n + 1) = zeros n ++ ['0'] := List.replicate_succ'
    rw [split, value_append, ih]
    rfl

theorem isDigit_of_mem_zeros {n : Nat} {c : Char} (h : c ∈ zeros n) : IsDigit c := by
  rw [List.eq_of_mem_replicate h]
  decide

/-- Only zero is written with a zero first. -/
theorem head_digits {n : Nat} (h : n ≠ 0) : (digits n).head? ≠ some '0' := by
  induction n using Nat.strongRecOn with
  | ind n ih =>
    by_cases small : n < 10
    · have one : digits n = [n.digitChar] := Nat.toDigits_of_lt_base small
      rw [one]
      interval_cases n <;> first | exact absurd rfl h | decide
    · have more : digits n = digits (n / 10) ++ [(n % 10).digitChar] :=
        Nat.toDigits_of_base_le (by decide) (by omega)
      rw [more, List.head?_append_of_ne_nil _ (digits_ne_nil _)]
      exact ih (n / 10) (by omega) (by omega)

/-- The digits of a natural are its significant digits and zeros after them. -/
theorem digits_eq (n : Nat) :
    ∃ k, digits n = significant n ++ zeros k := by
  let k := ((digits n).reverse.takeWhile (· == '0')).length
  have zero : (digits n).reverse.takeWhile (· == '0') = zeros k := by
    refine List.eq_replicate_of_mem fun c hc => ?_
    have all := List.all_takeWhile (p := (· == '0')) (l := (digits n).reverse)
    exact eq_of_beq (List.all_eq_true.mp all c hc)
  have whole := congrArg List.reverse
    (List.takeWhile_append_dropWhile (p := (· == '0')) (l := (digits n).reverse))
  rw [List.reverse_append, List.reverse_reverse, zero, zeros, List.reverse_replicate] at whole
  exact ⟨k, whole.symm⟩

theorem significant_ne_nil {n : Nat} (h : n ≠ 0) : significant n ≠ [] := by
  intro none
  obtain ⟨k, hk⟩ := digits_eq n
  have value := value_digits n
  rw [hk, none, List.nil_append, value_zeros] at value
  exact h value.symm

theorem head_significant {n : Nat} (h : n ≠ 0) : (significant n).head? ≠ some '0' := by
  obtain ⟨k, hk⟩ := digits_eq n
  have head := head_digits h
  rwa [hk, List.head?_append_of_ne_nil _ (significant_ne_nil h)] at head

theorem isDigit_of_mem_significant {n : Nat} {c : Char} (h : c ∈ significant n) : IsDigit c := by
  obtain ⟨k, hk⟩ := digits_eq n
  exact isDigit_of_mem_digits (n := n) (by rw [hk]; exact List.mem_append_left _ h)

/-- The number that is written, as its significant digits and the place of the point. -/
theorem significant_value (d : Scientific) :
    (value (significant d.coefficient) : ℚ) * 10 ^
      (((digits d.coefficient).length + d.exponent : Int) - (significant d.coefficient).length) =
        d.coefficient * 10 ^ d.exponent := by
  obtain ⟨k, hk⟩ := digits_eq d.coefficient
  have value : (d.coefficient : ℚ) = value (significant d.coefficient) * 10 ^ (k : Int) := by
    have value := value_digits d.coefficient
    rw [hk, value_append, value_zeros, Nat.add_zero, zeros, List.length_replicate] at value
    rw [zpow_natCast]
    exact_mod_cast value.symm
  have length : (((digits d.coefficient).length + d.exponent : Int) -
      (significant d.coefficient).length) = k + d.exponent := by
    rw [hk, List.length_append, zeros, List.length_replicate]
    push_cast
    ring
  rw [length, zpow_add₀ (by norm_num), value]
  ring

/-! ## The digits of a double -/

theorem Scientific.readsAs_iff {d : Scientific} {rank : Nat} :
    d.readsAs rank = true ↔ binary64.nearest (d.coefficient * 10 ^ d.exponent) = rank := by
  rw [readsAs, toDouble_eq]
  exact beq_iff_eq

theorem onGrid_readsAs {rank num den : Nat} {k : Int} {d : Scientific}
    (h : onGrid rank num den k = some d) : d.readsAs rank = true := by
  simp only [onGrid] at h
  split at h
  next low high =>
    split at h <;> cases h
    · exact high
    · exact low
  next low _ =>
    cases h
    exact low
  next _ high =>
    cases h
    exact high
  next => cases h

theorem shortest_readsAs {rank : Nat} (h : rank ≤ binary64.top) : (shortest rank).readsAs rank = true := by
  have found : ∀ (n : Nat) (k : Int), (shortestFrom rank (binary64.dyadic rank).1
      (binary64.dyadic rank).2 n k).readsAs rank = true := by
    intro n
    induction n with
    | zero =>
      intro k
      -- no grid was fine enough: all digits of the number
      rw [Scientific.readsAs_iff]
      generalize hd : binary64.dyadic rank = d
      obtain ⟨m, e⟩ := d
      have exact' : (((m <<< e.toNat) * Nat.pow 5 (-e).toNat : Nat) : ℚ) * 10 ^ (min e 0) = m * 2 ^ e := by
        simp only [Nat.pow_eq, Nat.shiftLeft_eq, Nat.cast_mul, Nat.cast_pow, Nat.cast_ofNat]
        rcases le_total 0 e with pos | neg
        · have none : (-e).toNat = 0 := by omega
          rw [none, pow_zero, mul_one, min_eq_right pos, zpow_zero, mul_one, ← zpow_natCast,
            Int.toNat_of_nonneg pos]
        · have none : e.toNat = 0 := by omega
          have ten : (10 : ℚ) ^ e = 5 ^ e * 2 ^ e := by
            rw [← mul_zpow]
            norm_num
          rw [none, pow_zero, mul_one, min_eq_left neg, ten, ← zpow_natCast (5 : ℚ),
            Int.toNat_of_nonneg (by omega), zpow_neg, mul_assoc, ← mul_assoc _ _ ((2 : ℚ) ^ e),
            inv_mul_cancel₀ (zpow_ne_zero _ (by norm_num)), one_mul]
      have value : binary64.valueOf rank = m * 2 ^ e := by rw [BinaryFormat.valueOf, hd]
      simp only [shortestFrom]
      rw [exact', ← value]
      exact BinaryFormat.nearest_valueOf h
    | succ n ih =>
      intro k
      simp only [shortestFrom]
      split
      next d hd => exact onGrid_readsAs hd
      next => exact ih _
  exact found 17 _

theorem shortest_coefficient_ne_zero {rank : Nat} (h : rank ≤ binary64.top) (positive : rank ≠ 0) :
    (shortest rank).coefficient ≠ 0 := by
  intro zero
  have reads := Scientific.readsAs_iff.mp (shortest_readsAs h)
  rw [zero, Nat.cast_zero, zero_mul, BinaryFormat.nearest, if_pos rfl] at reads
  exact positive reads.symm

end Decimal

end Covenant
