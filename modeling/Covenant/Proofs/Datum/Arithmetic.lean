import Covenant.Proofs.Value.Conformance
import Mathlib.Data.Rat.Floor
import Mathlib.Tactic.Linarith
/-!
Checked arithmetic of the types of integers.

* `tdiv_eq_truncated`, `sign_tmod`: integers are divided as rationals are, rounded toward zero, and the rest
  has the sign of the dividend;
* `Datum.raw_integers`, `Datum.arith_of_raw`: an operation makes the integer that it stands for, and answers
  with it just when it is one of the type;
* `Primitive.contains_tdiv_iff`: of all quotients only that of the least integer below zero by -1 is none of
  the type;
* `Datum.integer_arithmetic_is_exact`: all operations together.
-/

namespace Covenant

/-! ## Quotients and rests -/

def truncated (x : ℚ) : Int := if 0 ≤ x then ⌊x⌋ else ⌈x⌉

theorem tmod_nonpos {a : Int} (b : Int) (h : a ≤ 0) : a.tmod b ≤ 0 := by
  have rest := Int.tmod_nonneg b (Int.neg_nonneg_of_nonpos h)
  rw [Int.neg_tmod] at rest
  omega

theorem sign_tmod (a b : Int) : a.tmod b = 0 ∨ (a.tmod b).sign = a.sign := by
  have size := Int.natAbs_tmod a b
  have least := Nat.mod_le a.natAbs b.natAbs
  rcases Int.le_total 0 a with nonneg | nonpos
  · rcases Int.lt_or_eq_of_le (Int.tmod_nonneg b nonneg) with pos | zero
    · exact .inr (by rw [Int.sign_eq_one_of_pos pos, Int.sign_eq_one_of_pos (by omega)])
    · exact .inl zero.symm
  · rcases Int.lt_or_eq_of_le (tmod_nonpos b nonpos) with neg | zero
    · exact .inr (by rw [Int.sign_eq_neg_one_of_neg neg, Int.sign_eq_neg_one_of_neg (by omega)])
    · exact .inl zero

theorem natAbs_tmod_lt (a : Int) {b : Int} (hb : b ≠ 0) : (a.tmod b).natAbs < b.natAbs := by
  rw [Int.natAbs_tmod]
  exact Nat.mod_lt _ (Int.natAbs_pos.mpr hb)

/-- The quotient of integers is the rational one, rounded toward zero. -/
theorem tdiv_eq_truncated (a : Int) {b : Int} (hb : b ≠ 0) : a.tdiv b = truncated ((a : ℚ) / b) := by
  have nonzero : (b : ℚ) ≠ 0 := by exact_mod_cast hb
  have parts : (a : ℚ) = b * a.tdiv b + a.tmod b := by exact_mod_cast (Int.mul_tdiv_add_tmod a b).symm
  have sum : (a : ℚ) / b = a.tdiv b + (a.tmod b : ℚ) / b := by
    conv_lhs => rw [parts]
    rw [add_div, mul_div_cancel_left₀ _ nonzero]
  have small : |(a.tmod b : ℚ) / b| < 1 := by
    rw [abs_div, div_lt_one (abs_pos.mpr nonzero)]
    have rest := natAbs_tmod_lt a hb
    zify at rest
    exact_mod_cast rest
  -- what the quotient leaves lies on its side of zero, so it is cut off towards zero
  have side : 0 ≤ (a : ℚ) / b * ((a.tmod b : ℚ) / b) := by
    have same : 0 ≤ a * a.tmod b := by
      rcases sign_tmod a b with zero | sign
      · rw [zero, mul_zero]
      · rw [← Int.sign_nonneg_iff, Int.sign_mul, sign]
        exact mul_self_nonneg a.sign
    rw [div_mul_div_comm]
    exact div_nonneg (by exact_mod_cast same) (mul_self_nonneg _)
  rw [abs_lt] at small
  unfold truncated
  split
  next nonneg =>
    have rest : 0 ≤ (a.tmod b : ℚ) / b := by
      rcases nonneg.eq_or_lt with zero | pos
      · have : a = 0 := by exact_mod_cast (div_eq_zero_iff.mp zero.symm).resolve_right nonzero
        simp [this]
      · exact nonneg_of_mul_nonneg_right side pos
    rw [eq_comm, Int.floor_eq_iff, sum]
    exact ⟨by linarith, by linarith⟩
  next neg =>
    have rest : (a.tmod b : ℚ) / b ≤ 0 := nonpos_of_mul_nonneg_right side (not_le.mp neg)
    rw [eq_comm, Int.ceil_eq_iff, sum]
    exact ⟨by linarith, by linarith⟩

/-! ## Ranges -/

namespace Primitive

/-- An integer of a type of integers. -/
def Contains (p : Primitive) (i : Int) : Prop := ∃ low high, p.range? = some (low, high) ∧ low ≤ i ∧ i ≤ high

variable {p : Primitive} {low high a b : Int}

theorem contains_iff (range : p.range? = some (low, high)) (i : Int) :
    p.Contains i ↔ low ≤ i ∧ i ≤ high := by
  constructor
  · rintro ⟨low', high', range', inside⟩
    cases range.symm.trans range'
    exact inside
  · exact fun inside => ⟨low, high, range, inside⟩

instance (p : Primitive) (i : Int) : Decidable (p.Contains i) :=
  match range : p.range? with
  | some (low, high) => decidable_of_iff (low ≤ i ∧ i ≤ high) (contains_iff range i).symm
  | none => isFalse fun ⟨_, _, range', _⟩ => nomatch range.symm.trans range'

/-- A type of integers begins at zero, or goes one further below zero than above. -/
theorem range_cases (range : p.range? = some (low, high)) : 0 ≤ high ∧ (low = 0 ∨ low = -high - 1) := by
  cases p <;> cases range <;> decide

theorem contains_tmod (ha : p.Contains a) (b : Int) : p.Contains (a.tmod b) := by
  obtain ⟨low, high, range, least, greatest⟩ := ha
  have size := Int.natAbs_tmod a b
  have below := Nat.mod_le a.natAbs b.natAbs
  have nonneg : 0 ≤ a → 0 ≤ a.tmod b := Int.tmod_nonneg b
  have nonpos : a ≤ 0 → a.tmod b ≤ 0 := tmod_nonpos b
  refine ⟨low, high, range, ?_⟩
  obtain ⟨top, zero | negative⟩ := range_cases range <;> omega

theorem contains_tdiv_iff (ha : p.Contains a) (hb : p.Contains b) :
    ¬ p.Contains (a.tdiv b) ↔ b = -1 ∧ a < 0 ∧ ∃ high, p.range? = some (a, high) := by
  obtain ⟨low, high, range, least, greatest⟩ := ha
  rw [contains_iff range] at hb ⊢
  obtain ⟨top, bottom⟩ := range_cases range
  have first : (∃ high, p.range? = some (a, high)) ↔ a = low := by simp [range, eq_comm]
  rw [first]
  have size : (a.tdiv b).natAbs = a.natAbs / b.natAbs := Int.natAbs_tdiv a b
  by_cases unit : b = -1
  · rw [unit, Int.tdiv_neg, Int.tdiv_one]
    omega
  · refine iff_of_false (fun outside => outside ?_) (fun h => unit h.1)
    by_cases large : 2 ≤ b.natAbs
    · have half : a.natAbs / b.natAbs ≤ a.natAbs / 2 := Nat.div_le_div_left large (by decide)
      have sign : 0 ≤ a → 0 ≤ b → 0 ≤ a.tdiv b := Int.tdiv_nonneg
      omega
    · obtain rfl | rfl : b = 0 ∨ b = 1 := by omega
      · rw [Int.tdiv_zero]
        omega
      · rw [Int.tdiv_one]
        exact ⟨least, greatest⟩

end Primitive

/-! ## Operations -/

/-- The answer of an operation that makes an integer: the integer if it is one of the type. -/
def Arith.answer (op : Arith) (p : Primitive) (r : Int) : Except Failure Datum :=
  if p.Contains r then .ok (.integer r) else .error (.overflow op p)

def Arith.divides : Arith → Bool
  | .div | .mod => true
  | _ => false

/-- The integer that an operation on two operands stands for. -/
def Arith.onIntegers : Arith → Int → Int → Int
  | .add, a, b => a + b
  | .sub, a, b => a - b
  | .mul, a, b => a * b
  | .div, a, b => a.tdiv b
  | .mod, a, b => a.tmod b
  | .neg, _, b | .other _, _, b => -b

namespace Datum

theorem Number.nonNegative_whole (i : Int) : nonNegative (.whole i) = decide (0 ≤ i) := by
  simp only [nonNegative, Number.compare]
  rw [Bool.eq_iff_iff, bne_iff_ne, decide_eq_true_eq, ne_eq, Std.compare_eq_lt, not_lt]

/-- The quotient is that of the absolute values, with the sign that the operands give it. -/
theorem Number.truncatedQuotient_whole (origin : Origin) (a b : Int) :
    truncatedQuotient origin (.whole a) (.whole b) = .ok (.whole (a.tdiv b)) := by
  unfold truncatedQuotient
  simp only [abs, combine, ok_bind, neg, nonNegative_whole]
  cases a <;> cases b <;> rfl

variable {op : Arith} {p : Primitive} {a b r : Int} {origin : Origin}

/-- Before the check an operation makes the integer that it stands for. -/
theorem raw_integers (binary : op.isBinary = true) :
    raw origin op false (.integer a) (.integer b) = .ok (.integer (op.onIntegers a b)) := by
  cases op with
  | add | sub | mul => rfl
  | div =>
    rw [raw, asNumber, number?, asNumber, number?, ok_bind, ok_bind, if_neg Bool.false_ne_true,
      Number.truncatedQuotient_whole]
    rfl
  | mod =>
    rw [raw, asNumber, number?, asNumber, number?, ok_bind, ok_bind, if_neg Bool.false_ne_true,
      Number.truncatedQuotient_whole, ok_bind]
    have rest : a - b * a.tdiv b = a.tmod b := (Int.tmod_def a b).symm
    exact congrArg (fun r => Except.ok (Datum.integer r)) rest
  | neg | other => cases binary

/-- What is made of integers is checked against the range of the type. -/
theorem arith_of_raw (integers : p.isInteger = true) {d e : Datum}
    (defined : op.divides = true → e.eq (.integer 0) = false)
    (made : raw origin op false d e = .ok (.integer r)) : arith origin op p d e = op.answer p r := by
  obtain ⟨⟨low, high⟩, range⟩ := Option.isSome_iff_exists.mp integers
  obtain ⟨whole, notDouble, notSingle⟩ : p.isFloat = false ∧ (p == .f64) = false ∧ (p == .f32) = false := by
    cases p <;> first | exact ⟨rfl, rfl, rfl⟩ | cases range
  have checked : ((op == .div || op == .mod) && e.eq (.integer 0)) = false := by
    cases op <;> first | rfl | exact defined rfl
  unfold arith Arith.answer
  rw [checked, if_neg Bool.false_ne_true, whole, made]
  simp only [Failure.lift, ok_bind, notDouble, notSingle, range, asNumber, number?, within_whole,
    Primitive.contains_iff range, Bool.false_eq_true, if_false]
  rfl

theorem arith_integers (integers : p.isInteger = true) (binary : op.isBinary = true)
    (defined : op.divides = true → b ≠ 0) :
    arith origin op p (.integer a) (.integer b) = op.answer p (op.onIntegers a b) := by
  refine arith_of_raw integers (fun divides => ?_) (raw_integers binary)
  rw [Bool.eq_false_iff]
  intro zero
  exact defined divides (by simpa [eq, same, sameNumber, number?, Number.eq, Number.compare] using zero)

theorem arith_by_zero (p : Primitive) (divides : op.divides = true) (d : Datum) :
    arith origin op p d (.integer 0) = .error .divisionByZero := by
  cases op <;> first | rfl | cases divides

/-- Whatever integers of its type arithmetic is given, sums, differences, products and opposites are those of
the integers if they are of the type too, and overflow otherwise. Nothing is divided by zero. By anything else
there are a quotient, rounded toward zero, and a rest of the sign of the dividend that is smaller than the
divisor, and together they make the dividend again; the rest never overflows, and the quotient only if it is
that of the least integer below zero by -1. -/
theorem integer_arithmetic_is_exact (ha : p.Contains a) (hb : p.Contains b) (origin : Origin) :
    arith origin .add p (.integer a) (.integer b) = Arith.add.answer p (a + b) ∧
      arith origin .sub p (.integer a) (.integer b) = Arith.sub.answer p (a - b) ∧
      arith origin .mul p (.integer a) (.integer b) = Arith.mul.answer p (a * b) ∧
      arith origin .neg p (.integer a) .null = Arith.neg.answer p (-a) ∧
      (b = 0 → ∃ f : Failure, f.message = "Division by zero" ∧
        arith origin .div p (.integer a) (.integer b) = .error f ∧
        arith origin .mod p (.integer a) (.integer b) = .error f) ∧
      (b ≠ 0 → ∃ q r : Int, a = b * q + r ∧ r.natAbs < b.natAbs ∧ (r = 0 ∨ r.sign = a.sign) ∧
        q = truncated ((a : ℚ) / b) ∧
        arith origin .mod p (.integer a) (.integer b) = .ok (.integer r) ∧
        arith origin .div p (.integer a) (.integer b) = Arith.div.answer p q ∧
        (¬ p.Contains q ↔ b = -1 ∧ a < 0 ∧ ∃ high, p.range? = some (a, high))) := by
  have integers : p.isInteger = true := by
    obtain ⟨low, high, range, -⟩ := ha
    exact Option.isSome_iff_exists.mpr ⟨_, range⟩
  refine ⟨arith_integers integers rfl nofun, arith_integers integers rfl nofun,
    arith_integers integers rfl nofun, arith_of_raw integers nofun rfl, ?_, fun nonzero => ?_⟩
  · rintro rfl
    exact ⟨.divisionByZero, rfl, arith_by_zero p rfl _, arith_by_zero p rfl _⟩
  · have rest : arith origin .mod p (.integer a) (.integer b) = .ok (.integer (a.tmod b)) := by
      rw [arith_integers integers rfl fun _ => nonzero]
      exact if_pos (Primitive.contains_tmod ha b)
    exact ⟨a.tdiv b, a.tmod b, (Int.mul_tdiv_add_tmod a b).symm, natAbs_tmod_lt a nonzero, sign_tmod a b,
      tdiv_eq_truncated a nonzero, rest, arith_integers integers rfl fun _ => nonzero,
      Primitive.contains_tdiv_iff ha hb⟩

/-- The least integer of 32 bits by -1 leaves nothing, but has no quotient, no opposite and no product. -/
theorem least_is_not_divided : Primitive.i32.Contains (-0x80000000) ∧ Primitive.i32.Contains (-1) ∧
    arith .literal .div .i32 (.integer (-0x80000000)) (.integer (-1)) = .error (.overflow .div .i32) ∧
    arith .literal .mod .i32 (.integer (-0x80000000)) (.integer (-1)) = .ok (.integer 0) ∧
    arith .literal .neg .i32 (.integer (-0x80000000)) .null = .error (.overflow .neg .i32) ∧
    arith .literal .mul .i32 (.integer (-0x80000000)) (.integer (-1)) = .error (.overflow .mul .i32) := by
  have least : Primitive.i32.Contains (-0x80000000) := by decide
  have unit : Primitive.i32.Contains (-1) := by decide
  obtain ⟨-, -, product, opposite, -, parts⟩ := integer_arithmetic_is_exact least unit .literal
  obtain ⟨q, r, -, small, -, -, rest, quotient, only⟩ := parts (by decide)
  have outside : ¬ Primitive.i32.Contains q := only.mpr ⟨rfl, by decide, _, rfl⟩
  obtain rfl : r = 0 := by omega
  exact ⟨least, unit, quotient.trans (if_neg outside), rest, opposite.trans (if_neg (by decide)),
    product.trans (if_neg (by decide))⟩

end Datum

end Covenant
