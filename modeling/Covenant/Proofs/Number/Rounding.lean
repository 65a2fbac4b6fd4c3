import Covenant.Number.Double
import Mathlib.Algebra.Order.Floor.Semifield
import Mathlib.Data.Int.Log
import Mathlib.Data.Rat.Floor
import Mathlib.Tactic
/-!
Rounding to a binary format as a function of rational numbers. The rank of a quotient is that of the
rational number it stands for, and a number of the format is rounded to itself.
-/

namespace Covenant

/-- The natural nearest to a rational number, a tie going to the even one. -/
def roundHalf (q : ℚ) : Nat :=
  if 1 / 2 < q - ⌊q⌋₊ ∨ (q - ⌊q⌋₊ = 1 / 2 ∧ ⌊q⌋₊ % 2 = 1) then ⌊q⌋₊ + 1 else ⌊q⌋₊

theorem roundHalf_natCast (n : Nat) : roundHalf n = n := by
  simp [roundHalf]

theorem roundQuotient_eq (num : Nat) {den : Nat} (h : 0 < den) :
    roundQuotient num den = roundHalf (num / den) := by
  have floor : ⌊(num / den : ℚ)⌋₊ = num / den := Nat.floor_div_eq_div num den
  have positive : (0 : ℚ) < den := by exact_mod_cast h
  have rest : (num / den : ℚ) - (num / den : Nat) = (num % den : Nat) / den := by
    have split : (num : ℚ) = den * (num / den : Nat) + (num % den : Nat) := by
      exact_mod_cast (Nat.div_add_mod num den).symm
    rw [eq_div_iff positive.ne', sub_mul, div_mul_cancel₀ _ positive.ne']
    linarith
  have more : 1 / 2 < ((num % den : Nat) : ℚ) / den ↔ 2 * (num % den) > den := by
    rw [div_lt_div_iff₀ (by norm_num) positive, one_mul, mul_comm _ (2 : ℚ)]
    exact_mod_cast Iff.rfl
  have half : ((num % den : Nat) : ℚ) / den = 1 / 2 ↔ 2 * (num % den) = den := by
    rw [div_eq_div_iff positive.ne' (by norm_num), one_mul, mul_comm _ (2 : ℚ)]
    exact_mod_cast Iff.rfl
  simp only [roundQuotient, roundHalf, floor, rest, more, half]

theorem scaled_ratio (num den : Nat) (e : Int) :
    ((scaled num den e).1 : ℚ) / (scaled num den e).2 = num / den * 2 ^ (-e) := by
  simp only [scaled, Nat.shiftLeft_eq, Nat.cast_mul, Nat.cast_pow, Nat.cast_ofNat]
  rcases le_total 0 e with h | h
  · have none : (-e).toNat = 0 := by omega
    have all : ((e.toNat : Nat) : Int) = e := Int.toNat_of_nonneg h
    rw [none, pow_zero, mul_one, zpow_neg, ← all, zpow_natCast, Int.toNat_natCast, div_mul_eq_div_div,
      div_eq_mul_inv (num / den : ℚ)]
  · have none : e.toNat = 0 := by omega
    have all : (((-e).toNat : Nat) : Int) = -e := Int.toNat_of_nonneg (by omega)
    rw [none, pow_zero, mul_one, ← all, zpow_natCast, Int.toNat_natCast, mul_div_right_comm]

theorem scaled_pos {den : Nat} (h : den ≠ 0) (num : Nat) (e : Int) : 0 < (scaled num den e).2 := by
  simp only [scaled, Nat.shiftLeft_eq]
  exact Nat.mul_pos (Nat.pos_of_ne_zero h) (Nat.two_pow_pos _)

theorem log_of_bounds {v : ℚ} {n : Int} (low : 2 ^ n ≤ v) (high : v < 2 ^ (n + 1)) : Int.log 2 v = n := by
  have positive : 0 < v := lt_of_lt_of_le (zpow_pos (by norm_num) n) low
  have above : n ≤ Int.log 2 v := (Int.zpow_le_iff_le_log (by norm_num) positive).mp (by exact_mod_cast low)
  have below : Int.log 2 v < n + 1 :=
    (Int.lt_zpow_iff_log_lt (by norm_num) positive).mp (by exact_mod_cast high)
  omega

/-- Twice the power below. -/
theorem two_zpow_succ (n : Int) : (2 : ℚ) ^ (n + 1) = 2 * 2 ^ n := by
  rw [zpow_add₀ (by norm_num), zpow_one, mul_comm]

namespace BinaryFormat

variable (f : BinaryFormat)

/-- The exponent of the last bit that is kept of a number. -/
def lastExponent (v : ℚ) : Int := max f.lowestExponent (Int.log 2 v - f.fractionBits)

theorem lastBit_eq {num den : Nat} (hn : num ≠ 0) (hd : den ≠ 0) :
    f.lastBit num den = f.lastExponent (num / den) := by
  have hd' : (0 : ℚ) < den := by exact_mod_cast Nat.pos_of_ne_zero hd
  have hn' : (0 : ℚ) < num := by exact_mod_cast Nat.pos_of_ne_zero hn
  have positive : (0 : ℚ) < num / den := div_pos hn' hd'
  have low : (2 : ℚ) ^ (num.log2 : Int) ≤ num := by
    rw [zpow_natCast]
    exact_mod_cast Nat.log2_self_le hn
  have high : (num : ℚ) < 2 ^ ((num.log2 : Int) + 1) := by
    exact_mod_cast Nat.lt_log2_self (n := num)
  have low' : (2 : ℚ) ^ (den.log2 : Int) ≤ den := by
    rw [zpow_natCast]
    exact_mod_cast Nat.log2_self_le hd
  have high' : (den : ℚ) < 2 ^ ((den.log2 : Int) + 1) := by
    exact_mod_cast Nat.lt_log2_self (n := den)
  have above : (num / den : ℚ) < 2 ^ ((num.log2 : Int) - den.log2 + 1) := by
    rw [div_lt_iff₀ hd']
    calc (num : ℚ) < 2 ^ ((num.log2 : Int) + 1) := high
      _ = 2 ^ ((num.log2 : Int) - den.log2 + 1) * 2 ^ (den.log2 : Int) := by
          rw [← zpow_add₀ (by norm_num)]
          congr 1
          ring
      _ ≤ _ := by gcongr
  have below : (2 : ℚ) ^ ((num.log2 : Int) - den.log2 - 1) ≤ num / den := by
    rw [le_div_iff₀ hd']
    calc (2 : ℚ) ^ ((num.log2 : Int) - den.log2 - 1) * den
        ≤ 2 ^ ((num.log2 : Int) - den.log2 - 1) * 2 ^ ((den.log2 : Int) + 1) := by gcongr
      _ = 2 ^ (num.log2 : Int) := by
          rw [← zpow_add₀ (by norm_num)]
          congr 1
          ring
      _ ≤ num := low
  -- the quotient of the guess decides which of the two logarithms it is
  let guess : Int := (num.log2 : Int) - den.log2 - f.fractionBits
  have decides : (scaled num den guess).1 / (scaled num den guess).2 < 1 <<< f.fractionBits ↔
      (num / den : ℚ) < 2 ^ ((num.log2 : Int) - den.log2) := by
    have positive' : (0 : ℚ) < (scaled num den guess).2 := by
      exact_mod_cast scaled_pos hd num guess
    rw [Nat.div_lt_iff_lt_mul (scaled_pos hd num guess), Nat.shiftLeft_eq, one_mul]
    have cast : (scaled num den guess).1 < 2 ^ f.fractionBits * (scaled num den guess).2 ↔
        ((scaled num den guess).1 : ℚ) / (scaled num den guess).2 < 2 ^ f.fractionBits := by
      rw [div_lt_iff₀ positive']
      exact_mod_cast Iff.rfl
    rw [cast, scaled_ratio, zpow_neg, ← div_eq_mul_inv, div_lt_iff₀ (zpow_pos (by norm_num) _),
      ← zpow_natCast, ← zpow_add₀ (by norm_num)]
    have sum : (f.fractionBits : Int) + guess = num.log2 - den.log2 := by omega
    rw [sum]
  have shape : f.lastBit num den = max f.lowestExponent
      (if (scaled num den guess).1 / (scaled num den guess).2 < 1 <<< f.fractionBits then guess - 1
        else guess) := rfl
  rw [shape, lastExponent]
  congr 1
  by_cases small : (num / den : ℚ) < 2 ^ ((num.log2 : Int) - den.log2)
  · rw [if_pos (decides.mpr small), log_of_bounds below (by rwa [sub_add_cancel])]
    omega
  · rw [if_neg (decides.not.mpr small), log_of_bounds (not_lt.mp small) above]

/-- The rank of the number of the format that is nearest to a rational number. -/
def nearest (v : ℚ) : Nat :=
  if v = 0 then 0
  else min f.top (((f.lastExponent v - f.lowestExponent).toNat <<< f.fractionBits) +
    roundHalf (v * 2 ^ (-f.lastExponent v)))

theorem rank_eq_nearest (num : Nat) {den : Nat} (hd : den ≠ 0) :
    f.rank num den = f.nearest (num / den) := by
  by_cases hn : num = 0
  · simp [rank, nearest, hn]
  · have nonzero : (num / den : ℚ) ≠ 0 := by positivity
    simp only [rank, nearest, if_neg hn, if_neg nonzero, f.lastBit_eq hn hd,
      roundQuotient_eq _ (scaled_pos hd num _), scaled_ratio]

def valueOf (rank : Nat) : ℚ := (f.dyadic rank).1 * 2 ^ (f.dyadic rank).2

/-- What the parts of a number of the format are: at most the bits of the format, and a leading one
unless the exponent is the lowest. -/
structure IsParts (m : Nat) (e : Int) : Prop where
  short : m < 2 ^ (f.fractionBits + 1)
  lowest : f.lowestExponent ≤ e
  leading : e = f.lowestExponent ∨ 2 ^ f.fractionBits ≤ m

variable {f}

theorem isParts_dyadic (rank : Nat) : f.IsParts (f.dyadic rank).1 (f.dyadic rank).2 := by
  have rest : rank % 2 ^ f.fractionBits < 2 ^ f.fractionBits := Nat.mod_lt _ (Nat.two_pow_pos _)
  have double : 2 ^ (f.fractionBits + 1) = 2 * 2 ^ f.fractionBits := by ring
  simp only [dyadic, Nat.shiftLeft_eq, one_mul]
  split
  · exact ⟨by omega, Int.le_refl _, .inl rfl⟩
  · exact ⟨by simp only; omega, by simp only; omega, .inr (Nat.le_add_right _ _)⟩

theorem dyadic_of_isParts {m : Nat} {e : Int} (h : f.IsParts m e) :
    f.dyadic (((e - f.lowestExponent).toNat <<< f.fractionBits) + m) = (m, e) := by
  have positive : 0 < 2 ^ f.fractionBits := Nat.two_pow_pos _
  have short := h.short
  have lowest := h.lowest
  rw [Nat.pow_succ] at short
  simp only [dyadic, Nat.shiftLeft_eq, one_mul, Nat.shiftRight_eq_div_pow]
  rw [Nat.mul_comm, Nat.mul_add_div positive, Nat.mul_add_mod]
  rcases Nat.lt_or_ge m (2 ^ f.fractionBits) with small | large
  · obtain rfl : e = f.lowestExponent := h.leading.resolve_right (Nat.not_le.mpr small)
    simp [Nat.div_eq_of_lt small, Nat.mod_eq_of_lt small]
  · have one : m / 2 ^ f.fractionBits = 1 := by
      rw [Nat.div_eq_iff positive]
      omega
    have rest : m % 2 ^ f.fractionBits = m - 2 ^ f.fractionBits := by
      rw [Nat.mod_eq_sub_mod large, Nat.mod_eq_of_lt (by omega)]
    rw [one, rest, if_neg (Nat.succ_ne_zero _)]
    exact Prod.ext (by simp only; omega) (by simp only; omega)

theorem rank_of_dyadic (rank : Nat) :
    (((f.dyadic rank).2 - f.lowestExponent).toNat <<< f.fractionBits) + (f.dyadic rank).1 = rank := by
  have whole := Nat.div_add_mod rank (2 ^ f.fractionBits)
  simp only [dyadic, Nat.shiftLeft_eq, one_mul, Nat.shiftRight_eq_div_pow]
  split
  next h =>
    rw [h] at whole
    simp only [sub_self, Int.toNat_zero, Nat.zero_mul, Nat.zero_add]
    omega
  next h =>
    obtain ⟨k, hk⟩ := Nat.exists_eq_succ_of_ne_zero h
    rw [hk] at whole ⊢
    rw [Nat.mul_succ] at whole
    have shift : (f.lowestExponent + ((k.succ - 1 : Nat) : Int) - f.lowestExponent).toNat = k := by omega
    simp only [shift]
    rw [Nat.mul_comm k]
    omega

/-- A number with at most the bits of the format and no smaller last bit is kept exactly. -/
theorem nearest_exact {m : Nat} {e : Int} (short : m < 2 ^ (f.fractionBits + 1))
    (lowest : f.lowestExponent ≤ e) (nonzero : m ≠ 0) : ∃ m' e', f.IsParts m' e' ∧
      (m' * 2 ^ e' : ℚ) = m * 2 ^ e ∧
      f.nearest (m * 2 ^ e) = min f.top (((e' - f.lowestExponent).toNat <<< f.fractionBits) + m') := by
  have positive : (0 : ℚ) < m := by exact_mod_cast Nat.pos_of_ne_zero nonzero
  have exact' : (0 : ℚ) < m * 2 ^ e := mul_pos positive (zpow_pos (by norm_num) e)
  have log : Int.log 2 (m * 2 ^ e : ℚ) < f.fractionBits + 1 + e := by
    refine (Int.lt_zpow_iff_log_lt (by norm_num) exact').mp ?_
    push_cast
    rw [zpow_add₀ (by norm_num)]
    refine mul_lt_mul_of_pos_right ?_ (zpow_pos (by norm_num) e)
    exact_mod_cast short
  let last := f.lastExponent (m * 2 ^ e)
  have least : last = max f.lowestExponent (Int.log 2 (m * 2 ^ e : ℚ) - f.fractionBits) := rfl
  have whole : (m * 2 ^ e : ℚ) * 2 ^ (-last) = ((m * 2 ^ (e - last).toNat : Nat) : ℚ) := by
    rw [mul_assoc, ← zpow_add₀ (by norm_num), Nat.cast_mul, Nat.cast_pow, ← zpow_natCast,
      Int.toNat_of_nonneg (by omega)]
    rfl
  have back : ((m * 2 ^ (e - last).toNat : Nat) : ℚ) * 2 ^ last = m * 2 ^ e := by
    rw [← whole, mul_assoc, ← zpow_add₀ (by norm_num), neg_add_cancel, zpow_zero, mul_one]
  refine ⟨m * 2 ^ (e - last).toNat, last, ⟨?_, le_max_left _ _, ?_⟩, back, ?_⟩
  · -- the number is below the power after its logarithm
    have high := Int.lt_zpow_succ_log_self (b := 2) (by norm_num) (m * 2 ^ e : ℚ)
    push_cast at high
    have bound : ((m * 2 ^ (e - last).toNat : Nat) : ℚ) < 2 ^ (f.fractionBits + 1) := by
      rw [← whole, zpow_neg, ← div_eq_mul_inv, div_lt_iff₀ (zpow_pos (by norm_num) _), ← zpow_natCast,
        ← zpow_add₀ (by norm_num)]
      refine lt_of_lt_of_le high (zpow_le_zpow_right₀ (by norm_num) ?_)
      push_cast
      omega
    exact_mod_cast bound
  · by_cases low : Int.log 2 (m * 2 ^ e : ℚ) - f.fractionBits ≤ f.lowestExponent
    · exact .inl (max_eq_left low)
    · right
      have eq : last = Int.log 2 (m * 2 ^ e : ℚ) - f.fractionBits := max_eq_right (by omega)
      have power := Int.zpow_log_le_self (b := 2) (by norm_num) exact'
      push_cast at power
      have bound : (2 : ℚ) ^ f.fractionBits ≤ ((m * 2 ^ (e - last).toNat : Nat) : ℚ) := by
        rw [← whole, zpow_neg, ← div_eq_mul_inv, le_div_iff₀ (zpow_pos (by norm_num) _), ← zpow_natCast,
          ← zpow_add₀ (by norm_num), eq, add_sub_cancel]
        exact power
      exact_mod_cast bound
  · have rounded : roundHalf ((m * 2 ^ e : ℚ) * 2 ^ (-f.lastExponent (m * 2 ^ e))) =
        m * 2 ^ (e - last).toNat := by
      have h : (m * 2 ^ e : ℚ) * 2 ^ (-f.lastExponent (m * 2 ^ e)) = _ := whole
      rw [h, roundHalf_natCast]
    rw [nearest, if_neg exact'.ne', rounded]

/-- Parts of one number are the same. -/
theorem IsParts.unique {m m' : Nat} {e e' : Int} (h : f.IsParts m e) (h' : f.IsParts m' e')
    (same : (m * 2 ^ e : ℚ) = m' * 2 ^ e') : m = m' ∧ e = e' := by
  have upper : ∀ {m m' : Nat} {e e' : Int}, f.IsParts m e → f.IsParts m' e' →
      (m * 2 ^ e : ℚ) = m' * 2 ^ e' → e ≤ e' := by
    intro m m' e e' h h' same
    by_contra! less
    have leading : 2 ^ f.fractionBits ≤ m := h.leading.resolve_left (by have := h'.lowest; omega)
    have leading' : (2 : ℚ) ^ f.fractionBits ≤ m := by exact_mod_cast leading
    have short : (m' : ℚ) < 2 ^ (f.fractionBits + 1) := by exact_mod_cast h'.short
    have power : (2 : ℚ) * 2 ^ e' ≤ 2 ^ e := by
      rw [← two_zpow_succ]
      exact zpow_le_zpow_right₀ (by norm_num) (by omega)
    have positive : (0 : ℚ) < 2 ^ e' := zpow_pos (by norm_num) e'
    have : (m' : ℚ) * 2 ^ e' < m * 2 ^ e := calc
      (m' : ℚ) * 2 ^ e' < 2 ^ (f.fractionBits + 1) * 2 ^ e' := mul_lt_mul_of_pos_right short positive
      _ = 2 ^ f.fractionBits * (2 * 2 ^ e') := by ring
      _ ≤ m * 2 ^ e := by gcongr
    linarith
  obtain rfl : e = e' := le_antisymm (upper h h' same) (upper h' h same.symm)
  have power : (2 : ℚ) ^ e ≠ 0 := zpow_ne_zero _ (by norm_num)
  exact ⟨by exact_mod_cast mul_right_cancel₀ power same, rfl⟩

/-- The number of a rank is rounded to that rank. -/
theorem nearest_valueOf {rank : Nat} (h : rank ≤ f.top) : f.nearest (f.valueOf rank) = rank := by
  have parts := isParts_dyadic (f := f) rank
  by_cases zero : (f.dyadic rank).1 = 0
  · have lowest : (f.dyadic rank).2 = f.lowestExponent :=
      parts.leading.resolve_right (by rw [zero]; exact Nat.not_le.mpr (Nat.two_pow_pos _))
    have none : f.valueOf rank = 0 := by
      rw [valueOf, zero, Nat.cast_zero, zero_mul]
    have back := rank_of_dyadic (f := f) rank
    rw [zero, lowest, sub_self, Int.toNat_zero, Nat.zero_shiftLeft] at back
    rw [none, nearest, if_pos rfl]
    exact back
  · obtain ⟨m, e, parts', same, eq⟩ := nearest_exact parts.short parts.lowest zero
    obtain ⟨hm, he⟩ := parts.unique parts' same.symm
    rw [valueOf, eq, ← hm, ← he, rank_of_dyadic]
    exact min_eq_right h

/-- What is kept exactly is the number of its rank, if it is below infinity. -/
theorem valueOf_nearest {m : Nat} {e : Int} (short : m < 2 ^ (f.fractionBits + 1))
    (lowest : f.lowestExponent ≤ e) (finite : f.nearest (m * 2 ^ e) < f.top) :
    f.valueOf (f.nearest (m * 2 ^ e)) = m * 2 ^ e := by
  by_cases zero : m = 0
  · simp [zero, nearest, valueOf, dyadic]
  · obtain ⟨m', e', parts, same, eq⟩ := nearest_exact short lowest zero
    rw [eq] at finite ⊢
    have below := (min_lt_iff.mp finite).resolve_left (Nat.lt_irrefl _)
    rw [min_eq_right (Nat.le_of_lt below), valueOf, dyadic_of_isParts parts]
    exact same

theorem dyadic_ratio (m : Nat) (e : Int) :
    ((m <<< e.toNat : Nat) : ℚ) / (1 <<< (-e).toNat : Nat) = m * 2 ^ e := by
  have h := scaled_ratio m 1 (-e)
  rw [neg_neg, Nat.cast_one, div_one] at h
  rw [← h, scaled, neg_neg]

theorem rank_dyadic (f : BinaryFormat) (m : Nat) (e : Int) :
    f.rank (m <<< e.toNat) (1 <<< (-e).toNat) = f.nearest (m * 2 ^ e) := by
  rw [rank_eq_nearest f _ (by rw [Nat.one_shiftLeft]; exact (Nat.two_pow_pos _).ne'), dyadic_ratio]

theorem rank_le_top (f : BinaryFormat) (num den : Nat) : f.rank num den ≤ f.top := by
  unfold rank
  split
  · exact Nat.zero_le _
  · exact Nat.min_le_left _ _

end BinaryFormat

namespace Double

theorem ofDyadic_eq (negative : Bool) (m : Nat) (e : Int) (r : Fin 0x7ff0000000000001)
    (h : binary64.nearest (m * 2 ^ e) = r.val) : ofDyadic negative m e = .number negative r := by
  rw [ofDyadic, ofRatio]
  congr 1
  exact Fin.ext ((binary64.rank_dyadic m e).trans h)

/-- Every finite single precision number is a finite double. -/
theorem nearest_single {rank : Nat} (h : rank < binary32.top) :
    binary64.nearest (binary32.valueOf rank) < binary64.top ∧
      binary64.valueOf (binary64.nearest (binary32.valueOf rank)) = binary32.valueOf rank := by
  have parts := BinaryFormat.isParts_dyadic (f := binary32) rank
  have back := BinaryFormat.rank_of_dyadic (f := binary32) rank
  have bound : rank < 255 * 2 ^ 23 := by
    simpa [BinaryFormat.top, binary32, Nat.shiftLeft_eq] using h
  generalize hd : binary32.dyadic rank = d at parts back
  obtain ⟨m, e⟩ := d
  have value : binary32.valueOf rank = m * 2 ^ e := by rw [BinaryFormat.valueOf, hd]
  have short : m < 2 ^ 24 := parts.short
  have lowest : -149 ≤ e := parts.lowest
  have highest : e < 106 := by
    simp only [binary32, Nat.shiftLeft_eq] at back
    omega
  have short' : m < 2 ^ (binary64.fractionBits + 1) :=
    short.trans_le (Nat.pow_le_pow_right (by decide) (by decide))
  have lowest' : binary64.lowestExponent ≤ e := by
    have : binary64.lowestExponent = -1074 := rfl
    omega
  have finite : binary64.nearest (m * 2 ^ e) < binary64.top := by
    by_cases zero : m = 0
    · simp only [zero, Nat.cast_zero, zero_mul, BinaryFormat.nearest, if_true]
      decide
    · obtain ⟨m', e', parts', same, eq⟩ := BinaryFormat.nearest_exact short' lowest' zero
      rw [eq]
      refine min_lt_iff.mpr (.inr ?_)
      have short'' : m' < 2 ^ 53 := parts'.short
      have small : e' < 200 := by
        by_contra! large
        have leading : 2 ^ 52 ≤ m' := parts'.leading.resolve_left (by
          have : binary64.lowestExponent = -1074 := rfl
          omega)
        have left : (2 : ℚ) ^ (200 : Int) ≤ m' * 2 ^ e' := calc
          (2 : ℚ) ^ (200 : Int) ≤ 2 ^ e' := zpow_le_zpow_right₀ (by norm_num) large
          _ = 1 * 2 ^ e' := (one_mul _).symm
          _ ≤ m' * 2 ^ e' := by
            gcongr
            exact_mod_cast Nat.le_trans (by norm_num) leading
        have right : (m : ℚ) * 2 ^ e < 2 ^ (130 : Int) := calc
          (m : ℚ) * 2 ^ e < 2 ^ 24 * 2 ^ e :=
            mul_lt_mul_of_pos_right (by exact_mod_cast short) (zpow_pos (by norm_num) e)
          _ ≤ 2 ^ 24 * 2 ^ (106 : Int) := by
            gcongr
            · norm_num
          _ = 2 ^ (130 : Int) := by norm_num
        have order : (2 : ℚ) ^ (130 : Int) ≤ 2 ^ (200 : Int) :=
          zpow_le_zpow_right₀ (by norm_num) (by norm_num)
        linarith
      simp only [BinaryFormat.top, binary64, Nat.shiftLeft_eq] at parts' ⊢
      have lowest'' := parts'.lowest
      omega
  rw [value]
  exact ⟨finite, BinaryFormat.valueOf_nearest short' lowest' finite⟩

theorem isNan_roundSingle (origin : Origin) (x : Double) :
    (roundSingle origin x).isNan = x.isNan := by
  cases x with
  | nan => rfl
  | number negative r =>
    simp only [roundSingle]
    split <;> rfl

/-- A number that has been rounded to single precision stays as it is. -/
theorem roundSingle_roundSingle (origin origin' : Origin) {x : Double} (h : x.isNan = false) :
    roundSingle origin' (roundSingle origin x) = roundSingle origin x := by
  cases x with
  | nan => cases h
  | number negative r =>
    let rank := (Double.number negative r).singleRank
    by_cases top : rank = binary32.top
    · have infinite : roundSingle origin (.number negative r) = infinity negative := if_pos top
      rw [infinite]
      rfl
    · have below : rank < binary32.top := by
        refine lt_of_le_of_ne ?_ top
        simp only [rank, singleRank]
        split
        · exact Nat.le_refl _
        · exact BinaryFormat.rank_le_top ..
      obtain ⟨finite, value⟩ := nearest_single below
      let r' : Fin 0x7ff0000000000001 := ⟨_, finite.trans (by decide)⟩
      have eq : roundSingle origin (.number negative r) = .number negative r' := by
        have shape : roundSingle origin (.number negative r) =
            ofDyadic negative (binary32.dyadic rank).1 (binary32.dyadic rank).2 := if_neg top
        rw [shape]
        exact ofDyadic_eq _ _ _ r' rfl
      have again : (Double.number negative r').singleRank = rank := by
        have number : (Double.number negative r').isInfinite = false := beq_eq_false_iff_ne.mpr finite.ne
        have rounds : (Double.number negative r').singleRank = binary32.nearest (binary64.valueOf r') := by
          rw [singleRank, number]
          exact binary32.rank_dyadic _ _
        rw [rounds, value, BinaryFormat.nearest_valueOf below.le]
      rw [eq]
      have shape : roundSingle origin' (.number negative r') =
          ofDyadic negative (binary32.dyadic rank).1 (binary32.dyadic rank).2 := by
        simp only [roundSingle, again, if_neg top]
      rw [shape]
      exact ofDyadic_eq _ _ _ r' rfl

/-- A double that single precision holds, or that is no number. -/
def IsSingle (x : Double) : Prop := x.isNan = true ∨ x.roundSingle .literal = x

theorem isSingle_roundSingle (origin : Origin) (x : Double) : (x.roundSingle origin).IsSingle := by
  cases h : x.isNan with
  | true =>
    left
    rw [isNan_roundSingle, h]
  | false =>
    right
    exact roundSingle_roundSingle origin .literal h

end Double

end Covenant
