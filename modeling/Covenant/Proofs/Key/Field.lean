import Covenant.Key.Curve
import Mathlib.FieldTheory.Finite.Basic
import Mathlib.NumberTheory.LucasPrimality
import Mathlib.Tactic.LinearCombination
import Mathlib.Tactic.NormNum.Prime
/-!
The field that coordinates are taken from, and the second coordinates that go with a first one.

* `prime_fieldPrime`: the modulus is a prime, by the order of 3;
* `OnCurve`: the points of the curve, with coordinates below the prime;
* `OnCurve.eq_of_parity`: a first coordinate and a parity leave one second coordinate;
* `OnCurve.second_ne_zero`: no point has the second coordinate zero;
* `sqrt_eq`: the power that stands for a root is one where there is one.
-/

namespace Covenant

namespace Key

/-! ## Powers -/

theorem power_eq {m : Nat} (large : 1 < m) (a n e : Nat) (h : e < 2 ^ n) :
    power m a n e = a ^ e % m := by
  induction n generalizing a e with
  | zero =>
    obtain rfl : e = 0 := by simpa using h
    rw [power, pow_zero, Nat.mod_eq_of_lt large]
  | succ n ih =>
    have half : power m (a * a % m) n (e / 2) = a ^ (2 * (e / 2)) % m := by
      rw [ih _ _ (by omega), ← Nat.pow_mod, ← pow_two, ← pow_mul]
    simp only [power, half]
    have parts := Nat.div_add_mod e 2
    split
    next odd =>
      rw [Nat.mul_mod_mod, ← pow_succ', ← odd, parts]
    next even =>
      rw [show 2 * (e / 2) = e by omega]

theorem cast_power {m : Nat} (large : 1 < m) (a n e : Nat) (h : e < 2 ^ n) :
    ((power m a n e : Nat) : ZMod m) = (a : ZMod m) ^ e := by
  rw [power_eq large a n e h, ZMod.natCast_mod, Nat.cast_pow]

/-- A number is a prime when some power series modulo it is as long as can be: `factors` are the prime
factors of the number before it. -/
theorem prime_of_order {p : Nat} (a : Nat) (factors : List Nat) (large : 1 < p) (small : p ≤ 2 ^ 256)
    (primes : ∀ q ∈ factors, q.Prime) (product : factors.prod = p - 1)
    (whole : power p a 256 (p - 1) = 1) (parts : ∀ q ∈ factors, power p a 256 ((p - 1) / q) ≠ 1) :
    p.Prime := by
  have below : ∀ e, e ≤ p - 1 → e < 2 ^ 256 := fun e he => by omega
  apply lucas_primality p (a : ZMod p)
  · rw [← cast_power large a 256 _ (below _ (Nat.le_refl _)), whole, Nat.cast_one]
  · intro q hq divides
    -- a prime that divides the product is one of the factors
    rw [← product] at divides
    obtain ⟨f, hf, same⟩ := (Prime.dvd_prod_iff hq.prime).mp divides
    obtain rfl := (Nat.prime_dvd_prime_iff_eq hq (primes f hf)).mp same
    clear same
    intro one
    have same : a ^ ((p - 1) / q) % p = 1 % p := by
      apply (ZMod.natCast_eq_natCast_iff' _ _ p).mp
      rw [Nat.cast_pow, one, Nat.cast_one]
    apply parts q hf
    rw [power_eq large a 256 _ (below _ (Nat.div_le_self _ _)), same, Nat.mod_eq_of_lt large]

/-- The modulus of the field is a prime. -/
theorem prime_fieldPrime : fieldPrime.Prime := by
  have first : Nat.Prime 173378833005251801 := by
    apply prime_of_order 6 [2, 2, 2, 5, 5, 2621, 24809, 13331831]
    · norm_num
    · norm_num
    · norm_num
    · norm_num
    · decide +kernel
    · decide +kernel
  have second : Nat.Prime 22149492674086928081353 := by
    apply prime_of_order 5 [2, 2, 2, 3, 5323, 173378833005251801]
    · norm_num
    · norm_num
    · simp only [List.forall_mem_cons, first]
      norm_num
    · norm_num
    · decide +kernel
    · decide +kernel
  have third : Nat.Prime 132896956044521568488119 := by
    apply prime_of_order 6 [2, 3, 22149492674086928081353]
    · norm_num
    · norm_num
    · simp only [List.forall_mem_cons, second]
      norm_num
    · norm_num
    · decide +kernel
    · decide +kernel
  have fourth : Nat.Prime 255515944373312847190720520512484175977 := by
    apply prime_of_order 3 [2, 2, 2, 7, 7, 11, 1627, 2657, 4423, 41201, 96557, 7240687, 107590001]
    · norm_num
    · norm_num
    · norm_num
    · norm_num
    · decide +kernel
    · decide +kernel
  have fifth :
      Nat.Prime 205115282021455665897114700593932402728804164701536103180137503955397371 := by
    apply prime_of_order 10 [2, 3, 5, 29, 29, 31, 7723, 132896956044521568488119,
      255515944373312847190720520512484175977]
    · norm_num
    · norm_num
    · simp only [List.forall_mem_cons, third, fourth]
      norm_num
    · norm_num
    · decide +kernel
    · decide +kernel
  apply prime_of_order 3 [2, 3, 7, 13441,
    205115282021455665897114700593932402728804164701536103180137503955397371]
  · norm_num
  · norm_num
  · simp only [List.forall_mem_cons, fifth]
    norm_num
  · norm_num
  · decide +kernel
  · decide +kernel

instance : Fact fieldPrime.Prime := ⟨prime_fieldPrime⟩

/-! ## Points -/

structure OnCurve (x y : Nat) : Prop where
  first : x < fieldPrime
  second : y < fieldPrime
  equation : y ^ 2 % fieldPrime = (x ^ 3 + 7) % fieldPrime

instance (x y : Nat) : Decidable (OnCurve x y) :=
  decidable_of_iff (x < fieldPrime ∧ y < fieldPrime ∧ y ^ 2 % fieldPrime = (x ^ 3 + 7) % fieldPrime)
    ⟨fun ⟨first, second, equation⟩ => ⟨first, second, equation⟩,
      fun ⟨first, second, equation⟩ => ⟨first, second, equation⟩⟩

theorem onCurve_eq_true {x y : Nat} :
    onCurve x y = true ↔ y ^ 2 % fieldPrime = (x ^ 3 + 7) % fieldPrime := by
  rw [onCurve, beq_iff_eq, pow_two, pow_succ, pow_two]

/-- Numbers with one square are the same or opposite. -/
theorem eq_or_add_eq {r y : Nat} (hr : r < fieldPrime) (hy : y < fieldPrime)
    (same : r ^ 2 % fieldPrime = y ^ 2 % fieldPrime) : r = y ∨ r + y = fieldPrime := by
  have product : ((r : ZMod fieldPrime) - y) * (r + y) = 0 := by
    have squares := (ZMod.natCast_eq_natCast_iff' _ _ fieldPrime).mpr same
    push_cast at squares
    linear_combination squares
  rcases mul_eq_zero.mp product with minus | plus
  · left
    have equal := (ZMod.natCast_eq_natCast_iff' _ _ fieldPrime).mp (sub_eq_zero.mp minus)
    rwa [Nat.mod_eq_of_lt hr, Nat.mod_eq_of_lt hy] at equal
  · have divides : fieldPrime ∣ r + y := by
      apply (ZMod.natCast_eq_zero_iff _ _).mp
      rw [Nat.cast_add, plus]
    obtain ⟨n, hn⟩ := divides
    match n with
    | 0 => exact .inl (by omega)
    | 1 => exact .inr (by omega)
    | n + 2 =>
      have : fieldPrime * 2 ≤ fieldPrime * (n + 2) := Nat.mul_le_mul_left _ (by omega)
      omega

/-- A first coordinate and a parity leave one second coordinate. -/
theorem OnCurve.eq_of_parity {x y y' : Nat} (h : OnCurve x y) (h' : OnCurve x y')
    (parity : y % 2 = y' % 2) : y = y' := by
  rcases eq_or_add_eq h.second h'.second (h.equation.trans h'.equation.symm) with same | opposite
  · exact same
  · exfalso
    have odd : fieldPrime % 2 = 1 := by decide
    omega

/-! ## Roots -/

/-- The power that stands for a root is one of any square. -/
theorem sqrt_eq {y : Nat} (hy : y < fieldPrime) :
    power fieldPrime (y ^ 2 % fieldPrime) 256 ((fieldPrime + 1) / 4) = y ∨
      power fieldPrime (y ^ 2 % fieldPrime) 256 ((fieldPrime + 1) / 4) + y = fieldPrime := by
  have large : 1 < fieldPrime := by decide
  have below : (fieldPrime + 1) / 4 < 2 ^ 256 := by decide
  apply eq_or_add_eq
  · rw [power_eq large _ _ _ below]
    exact Nat.mod_lt _ (by decide)
  · exact hy
  · apply (ZMod.natCast_eq_natCast_iff' _ _ fieldPrime).mp
    have fourth : (fieldPrime + 1) / 4 * 4 = fieldPrime + 1 := by decide
    calc ((power fieldPrime (y ^ 2 % fieldPrime) 256 ((fieldPrime + 1) / 4) ^ 2 : Nat) : ZMod fieldPrime)
        = ((y : ZMod fieldPrime) ^ 2) ^ ((fieldPrime + 1) / 4 * 2) := by
          rw [Nat.cast_pow, cast_power large _ _ _ below, ZMod.natCast_mod, Nat.cast_pow, ← pow_mul]
      _ = (y : ZMod fieldPrime) ^ (fieldPrime + 1) := by
          rw [← pow_mul, ← fourth]
          congr 1
      _ = ((y ^ 2 : Nat) : ZMod fieldPrime) := by
          rw [pow_succ, ZMod.pow_card, Nat.cast_pow, pow_two]

/-- The opposite of 7 is no cube. -/
theorem cube_add_ne_zero (x : Nat) : (x ^ 3 + 7) % fieldPrime ≠ 0 := by
  intro zero
  have large : 1 < fieldPrime := by decide
  have below : (fieldPrime - 1) / 3 < 2 ^ 256 := by decide
  have cube : (x : ZMod fieldPrime) ^ 3 = ((fieldPrime - 7 : Nat) : ZMod fieldPrime) := by
    have sum := (ZMod.natCast_eq_natCast_iff' (x ^ 3 + 7) 0 fieldPrime).mpr (by rw [zero, Nat.zero_mod])
    have seven : ((fieldPrime - 7 : Nat) : ZMod fieldPrime) + 7 = 0 := by
      have := ZMod.natCast_self fieldPrime
      exact_mod_cast this
    push_cast at sum
    linear_combination sum - seven
  have nonzero : (x : ZMod fieldPrime) ≠ 0 := by
    intro none
    rw [none] at cube
    have := (ZMod.natCast_eq_natCast_iff' (0 ^ 3) (fieldPrime - 7) fieldPrime).mp (by
      rw [← cube]
      simp)
    exact absurd this (by decide)
  have one : ((power fieldPrime (fieldPrime - 7) 256 ((fieldPrime - 1) / 3) : Nat) : ZMod fieldPrime) =
      ((1 : Nat) : ZMod fieldPrime) := by
    have third : 3 * ((fieldPrime - 1) / 3) = fieldPrime - 1 := by decide
    rw [cast_power large _ _ _ below, ← cube, ← pow_mul, third, ZMod.pow_card_sub_one_eq_one nonzero,
      Nat.cast_one]
  have other : power fieldPrime (fieldPrime - 7) 256 ((fieldPrime - 1) / 3) % fieldPrime ≠ 1 % fieldPrime := by
    decide +kernel
  exact other ((ZMod.natCast_eq_natCast_iff' _ _ fieldPrime).mp one)

/-- No point has the second coordinate zero. -/
theorem OnCurve.second_ne_zero {x y : Nat} (h : OnCurve x y) : y ≠ 0 := by
  rintro rfl
  exact cube_add_ne_zero x (h.equation.symm.trans (by decide))

end Key

end Covenant
