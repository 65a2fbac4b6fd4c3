import Covenant.Json.Reader
import Covenant.Json.Writer
import Covenant.Proofs.Number.Decimal
/-!
Numbers in JSON text: what is written for an integer or a double is read as that number again.
-/

namespace Covenant

open Decimal

namespace Json

/-- The text of a fraction, the point included. -/
def pointed (fraction : List Char) : List Char := if fraction = [] then [] else '.' :: fraction

def signed (negative : Bool) (text : List Char) : List Char := if negative then '-' :: text else text

theorem takeDigits_append {ds : List Char} (h : ∀ c ∈ ds, IsDigit c) {rest : List Char}
    (stop : ∀ c ∈ rest.head?, ¬ IsDigit c) : takeDigits (ds ++ rest) = ds := by
  induction ds with
  | nil =>
    cases rest with
    | nil => rfl
    | cons c rest =>
      have last := stop c rfl
      exact List.takeWhile_cons_of_neg (by simpa [IsDigit] using last)
  | cons c ds ih =>
    have digit := h c (List.mem_cons_self ..)
    have step : takeDigits (c :: ds ++ rest) = c :: takeDigits (ds ++ rest) :=
      List.takeWhile_cons_of_pos (by simpa [IsDigit] using digit)
    rw [step, ih fun d hd => h d (List.mem_cons_of_mem _ hd)]

/-- What may follow a number: nothing that would be read as a part of it. -/
def Ends (rest : List Char) : Prop := ∀ c ∈ rest.head?, ¬ IsDigit c ∧ c ∉ ['.', 'e', 'E']

theorem ends_nil : Ends [] := nofun

theorem ends_cons {c : Char} (h : c ∈ [',', ']', '\x7d']) (rest : List Char) : Ends (c :: rest) := by
  rintro _ ⟨⟩
  fin_cases h <;> decide

/-- What follows the digits of a number before its exponent, and the exponent with its value. -/
structure IsExponent (text : List Char) (value : Int) : Prop where
  read : ∀ rest, Ends rest → exponentPart (text ++ rest) = (value, text.length)
  stops : ∀ c ∈ text.head?, ¬ IsDigit c ∧ c ≠ '.'
  marks : ∀ c ∈ text, IsDigit c ∨ c ∈ ['e', '+', '-']

theorem isExponent_none : IsExponent [] 0 := by
  refine ⟨fun rest ends => ?_, nofun, nofun⟩
  cases rest with
  | nil => rfl
  | cons c rest =>
    have other := (ends c rfl).2
    simp only [List.mem_cons, List.not_mem_nil, or_false, not_or] at other
    exact if_neg (not_or.mpr other.2)

theorem isExponent_written {ds : List Char} (h : ∀ c ∈ ds, IsDigit c) (some : ds ≠ []) (n : Int)
    (value : (Decimal.value ds : Int) = n.natAbs) :
    IsExponent ('e' :: (if n < 0 then '-' else '+') :: ds) n := by
  have nonempty : ds.isEmpty = false := by
    cases ds with
    | nil => exact absurd rfl some
    | cons => rfl
  refine ⟨fun rest ends => ?_, ?_, ?_⟩
  · have all : takeDigits (ds ++ rest) = ds := takeDigits_append h fun c hc => (ends c hc).1
    by_cases negative : n < 0
    · rw [if_pos negative]
      simp only [List.cons_append, exponentPart, true_or, if_true, all, nonempty, Bool.false_eq_true,
        if_false, value]
      refine Prod.ext (by simp only; omega) ?_
      simp only [List.length_cons]
      omega
    · rw [if_neg negative]
      simp only [List.cons_append, exponentPart, true_or, if_true, all, nonempty, Bool.false_eq_true,
        if_false, value]
      refine Prod.ext (by simp only; omega) ?_
      simp only [List.length_cons]
      omega
  · rintro c ⟨⟩
    decide
  · intro c hc
    rcases List.mem_cons.mp hc with rfl | hc
    · exact .inr (by decide)
    rcases List.mem_cons.mp hc with rfl | hc
    · right
      split <;> decide
    · exact .inl (h c hc)

/-- Whether a number has a sign, and how many characters that takes. -/
def signOf : List Char → Bool × Nat
  | '-' :: _ => (true, 1)
  | _ => (false, 0)

theorem signOf_cons {c : Char} (h : c ≠ '-') (rest : List Char) : signOf (c :: rest) = (false, 0) := by
  unfold signOf
  split
  next eq => exact absurd (List.cons.inj eq).1 h
  next => rfl

/-- The digits after the point, if there is one. -/
def fractionOf : List Char → List Char
  | '.' :: r => takeDigits r
  | _ => []

theorem fractionOf_of_ne {text : List Char} (h : ∀ c ∈ text.head?, c ≠ '.') : fractionOf text = [] := by
  unfold fractionOf
  split
  next => exact absurd rfl (h '.' rfl)
  next => rfl

theorem number_eq (c : Cursor) : number c =
    let s := signOf c.rest
    let all := takeDigits (c.rest.drop s.2)
    let whole := if all.head? = some '0' then ['0'] else all
    if whole.isEmpty then c.fail .value
    else
      let rest := c.rest.drop (s.2 + whole.length)
      let fraction := fractionOf rest
      let size := if fraction.isEmpty then 0 else 1 + fraction.length
      let exponent := exponentPart (rest.drop size)
      let next := c.drop (s.2 + whole.length + size + exponent.2)
      if size + exponent.2 = 0 then
        if Text.digitLimit < whole.length then .error .tooLong
        else .ok (.integer (if s.1 then -(Decimal.value whole : Int) else Decimal.value whole), next)
      else
        .ok (.float (toDouble s.1 (Decimal.value (whole ++ fraction)) (exponent.1 - fraction.length)),
          next) := rfl

structure IsNumber (whole fraction exponent : List Char) (power : Int) : Prop where
  digits : ∀ c ∈ whole, IsDigit c
  nonempty : whole ≠ []
  leading : whole.head? = some '0' → whole = ['0']
  decimals : ∀ c ∈ fraction, IsDigit c
  scale : IsExponent exponent power

namespace IsNumber

variable {whole fraction exponent : List Char} {power : Int}

theorem head (h : IsNumber whole fraction exponent power) :
    ∃ c rest, whole = c :: rest ∧ IsDigit c := by
  cases whole with
  | nil => exact absurd rfl h.nonempty
  | cons c rest => exact ⟨c, rest, rfl, h.digits c (List.mem_cons_self ..)⟩

/-- A number is read up to its end: as an integer when it has digits only, otherwise as the double
nearest to it. -/
theorem read (h : IsNumber whole fraction exponent power) (negative : Bool) (position : Nat)
    {after : List Char} (ends : Ends after) :
    ∃ position', number ⟨position, signed negative (whole ++ (pointed fraction ++ (exponent ++ after)))⟩ =
      if fraction = [] ∧ exponent = [] then
        if Text.digitLimit < whole.length then .error .tooLong
        else .ok (.integer (if negative then -(Decimal.value whole : Int) else Decimal.value whole),
          ⟨position', after⟩)
      else .ok (.float (toDouble negative (Decimal.value (whole ++ fraction))
        (power - fraction.length)), ⟨position', after⟩) := by
  obtain ⟨c, rest, start, digit⟩ := h.head
  have begins : ∀ c ∈ (exponent ++ after).head?, ¬ IsDigit c ∧ c ≠ '.' := by
    intro c hc
    cases exponent with
    | nil => exact ⟨(ends c hc).1, fun point => (ends c hc).2 (by simp [point])⟩
    | cons d ds => exact h.scale.stops c hc
  generalize ht : whole ++ (pointed fraction ++ (exponent ++ after)) = text
  let sign := if negative then 1 else 0
  have sign_read : signOf (signed negative text) = (negative, sign) := by
    cases negative with
    | true => rfl
    | false =>
      have other : c ≠ '-' := by
        rintro rfl
        exact absurd digit (by decide)
      rw [← ht, start]
      exact signOf_cons other _
  have unsigned : (signed negative text).drop sign = text := by
    cases negative <;> rfl
  have stop : ∀ c ∈ (pointed fraction ++ (exponent ++ after)).head?, ¬ IsDigit c := by
    intro c hc
    unfold pointed at hc
    split at hc
    · exact (begins c hc).1
    · cases hc
      decide
  have all : takeDigits text = whole := by
    rw [← ht]
    exact takeDigits_append h.digits stop
  have first : (if whole.head? = some '0' then ['0'] else whole) = whole := by
    split
    next zero => exact (h.leading zero).symm
    next => rfl
  have some : whole.isEmpty = false := by rw [start]; rfl
  have later : (signed negative text).drop (sign + whole.length) =
      pointed fraction ++ (exponent ++ after) := by
    rw [← List.drop_drop, unsigned, ← ht]
    exact List.drop_left
  have fraction_read : fractionOf (pointed fraction ++ (exponent ++ after)) = fraction := by
    unfold pointed
    split_ifs with none
    · rw [none, List.nil_append]
      exact fractionOf_of_ne fun c hc => (begins c hc).2
    · exact takeDigits_append h.decimals fun c hc => (begins c hc).1
  obtain ⟨size, hs⟩ : ∃ n, (if fraction.isEmpty then 0 else 1 + fraction.length) = n := ⟨_, rfl⟩
  have size_eq : (pointed fraction).length = size := by
    rw [← hs]
    unfold pointed
    cases fraction with
    | nil => rfl
    | cons c ds =>
      simp only [List.isEmpty_cons, Bool.false_eq_true, if_false, List.length_cons, reduceCtorEq]
      omega
  have exponent_read : exponentPart ((pointed fraction ++ (exponent ++ after)).drop size) =
      (power, exponent.length) := by
    rw [← size_eq, List.drop_left]
    exact h.scale.read after ends
  have done : (signed negative text).drop (sign + whole.length + size + exponent.length) = after := by
    rw [Nat.add_assoc (sign + whole.length), ← List.drop_drop, later, ← size_eq, ← List.length_append,
      ← List.append_assoc]
    exact List.drop_left
  have plain : size + exponent.length = 0 ↔ fraction = [] ∧ exponent = [] := by
    rw [← hs]
    cases fraction with
    | nil => simp
    | cons => simp
  refine ⟨position + (sign + whole.length + size + exponent.length), ?_⟩
  rw [number_eq]
  simp only [sign_read, unsigned, all, first, some, later, fraction_read, hs, exponent_read, Cursor.drop,
    done, plain, Bool.false_eq_true, if_false]

end IsNumber

/-! ## Integers -/

theorem isNumber_digits (n : Nat) : IsNumber (digits n) [] [] 0 where
  digits _ h := isDigit_of_mem_digits h
  nonempty := digits_ne_nil n
  leading zero := by
    by_cases h : n = 0
    · rw [h]
      rfl
    · exact absurd zero (head_digits h)
  decimals := nofun
  scale := isExponent_none

theorem integer_toList (i : Int) : (Decimal.integer i).toList = signed (i < 0) (digits i.natAbs) := by
  unfold Decimal.integer signed
  by_cases h : i < 0 <;> simp [h, natural]

theorem signed_append (negative : Bool) (s t : List Char) : signed negative s ++ t = signed negative (s ++ t) := by
  cases negative <;> rfl

/-- An integer is read from its text unless it has too many digits. -/
theorem number_integer (i : Int) (position : Nat) {after : List Char} (ends : Ends after) :
    ∃ position', number ⟨position, (Decimal.integer i).toList ++ after⟩ =
      if Text.digitLimit < (digits i.natAbs).length then .error .tooLong
      else .ok (.integer i, ⟨position', after⟩) := by
  obtain ⟨position', h⟩ := (isNumber_digits i.natAbs).read (i < 0) position ends
  rw [if_pos ⟨rfl, rfl⟩, value_digits, pointed, if_pos rfl, List.nil_append, List.nil_append,
    ← signed_append, ← integer_toList] at h
  refine ⟨position', h.trans ?_⟩
  have sign : (if decide (i < 0) then -(i.natAbs : Int) else i.natAbs) = i := by
    by_cases negative : i < 0
    · simp only [negative, decide_true, if_true]
      omega
    · simp only [negative, decide_false, Bool.false_eq_true, if_false]
      omega
  rw [sign]

/-! ## Doubles -/

/-- A text that is a number, not an integer, with the value of `0.ds * 10 ^ point`. -/
def Shows (ds : List Char) (point : Int) (text : List Char) : Prop :=
  ∃ whole fraction exponent power, text = whole ++ (pointed fraction ++ exponent) ∧
    IsNumber whole fraction exponent power ∧ ¬ (fraction = [] ∧ exponent = []) ∧
    (Decimal.value (whole ++ fraction) : ℚ) * 10 ^ (power - fraction.length) =
      Decimal.value ds * 10 ^ (point - ds.length)

section Layout

variable {ds : List Char} (h : ∀ c ∈ ds, IsDigit c) (nonempty : ds ≠ []) (leading : ds.head? ≠ some '0')
  {point : Int}

include h nonempty in
theorem shows_below_one (small : point ≤ 0) :
    Shows ds point ('0' :: '.' :: zeros (-point).toNat ++ ds) := by
  refine ⟨['0'], zeros (-point).toNat ++ ds, [], 0, ?_, ⟨?_, nofun, fun _ => rfl, ?_, isExponent_none⟩,
    ?_, ?_⟩
  · simp [pointed, nonempty]
  · simp only [List.mem_singleton]
    rintro c rfl
    decide
  · intro c hc
    exact (List.mem_append.mp hc).elim isDigit_of_mem_zeros (h c)
  · simp [nonempty]
  · have value : Decimal.value (['0'] ++ (zeros (-point).toNat ++ ds)) = Decimal.value ds := by
      rw [value_append, value_append, value_zeros]
      simp [Decimal.value]
    have power : (0 : Int) - ((zeros (-point).toNat ++ ds).length : Nat) = point - ds.length := by
      rw [List.length_append, zeros, List.length_replicate]
      omega
    rw [value, power]

include h nonempty leading in
theorem shows_whole (long : (ds.length : Int) ≤ point) :
    Shows ds point (ds ++ zeros (point.toNat - ds.length) ++ ['.', '0']) := by
  refine ⟨ds ++ zeros (point.toNat - ds.length), ['0'], [], 0, ?_, ⟨?_, ?_, ?_, ?_, isExponent_none⟩,
    ?_, ?_⟩
  · simp [pointed]
  · intro c hc
    exact (List.mem_append.mp hc).elim (h c) isDigit_of_mem_zeros
  · simp [nonempty]
  · rw [List.head?_append_of_ne_nil _ nonempty]
    exact fun zero => absurd zero leading
  · simp only [List.mem_singleton]
    rintro c rfl
    decide
  · simp
  · have value : Decimal.value (ds ++ zeros (point.toNat - ds.length) ++ ['0']) =
        Decimal.value ds * 10 ^ (point.toNat - ds.length) * 10 := by
      rw [value_append, value_append, value_zeros, zeros, List.length_replicate]
      rfl
    have power : (10 : ℚ) ^ (point - ds.length) = 10 ^ (point.toNat - ds.length) := by
      rw [← zpow_natCast]
      congr 1
      omega
    rw [value, power]
    push_cast
    norm_num
    ring

include h leading in
theorem shows_among (low : 0 < point) (high : point < ds.length) :
    Shows ds point (ds.take point.toNat ++ '.' :: ds.drop point.toNat) := by
  have before : ds.take point.toNat ≠ [] := by
    rw [ne_eq, List.take_eq_nil_iff]
    rintro (none | rfl)
    · omega
    · simp only [List.length_nil, Nat.cast_zero] at high
      omega
  have after : ds.drop point.toNat ≠ [] := by
    rw [ne_eq, List.drop_eq_nil_iff]
    omega
  refine ⟨ds.take point.toNat, ds.drop point.toNat, [], 0, ?_, ⟨?_, before, ?_, ?_, isExponent_none⟩,
    ?_, ?_⟩
  · simp [pointed, after]
  · exact fun c hc => h c (List.mem_of_mem_take hc)
  · have head : (ds.take point.toNat).head? = ds.head? := by
      rw [List.head?_take, if_neg (by omega)]
    rw [head]
    exact fun zero => absurd zero leading
  · exact fun c hc => h c (List.mem_of_mem_drop hc)
  · exact fun none => after none.1
  · have power : (0 : Int) - ((ds.drop point.toNat).length : Nat) = point - ds.length := by
      rw [List.length_drop]
      omega
    rw [List.take_append_drop, power]

include h nonempty leading in
theorem shows_scientific {exponent : List Char} (digits : ∀ c ∈ exponent, IsDigit c)
    (some : exponent ≠ []) (value : (Decimal.value exponent : Int) = (point - 1).natAbs) :
    Shows ds point (ds.take 1 ++ (if ds.length ≤ 1 then [] else '.' :: ds.drop 1) ++
      'e' :: (if point - 1 < 0 then '-' else '+') :: exponent) := by
  have positive : 0 < ds.length := List.length_pos_iff.mpr nonempty
  have before : ds.take 1 ≠ [] := by
    rw [ne_eq, List.take_eq_nil_iff]
    exact not_or.mpr ⟨by decide, nonempty⟩
  have fraction : (if ds.length ≤ 1 then [] else '.' :: ds.drop 1) = pointed (ds.drop 1) := by
    have iff : ds.drop 1 = [] ↔ ds.length ≤ 1 := List.drop_eq_nil_iff
    simp only [pointed, iff]
  refine ⟨ds.take 1, ds.drop 1, 'e' :: (if point - 1 < 0 then '-' else '+') :: exponent, point - 1, ?_,
    ⟨?_, before, ?_, ?_, isExponent_written digits some _ value⟩, ?_, ?_⟩
  · rw [fraction, List.append_assoc]
  · exact fun c hc => h c (List.mem_of_mem_take hc)
  · have head : (ds.take 1).head? = ds.head? := by
      rw [List.head?_take, if_neg (by decide)]
    rw [head]
    exact fun zero => absurd zero leading
  · exact fun c hc => h c (List.mem_of_mem_drop hc)
  · simp
  · have power : point - 1 - ((ds.drop 1).length : Nat) = point - ds.length := by
      rw [List.length_drop]
      omega
    rw [List.take_append_drop, power]

include h nonempty leading in
/-- Digits and the place of the point are laid out as a number with their value. -/
theorem shows_layout (style : Style) (point : Int) :
    Shows ds point (style.layout ds point) := by
  unfold Style.layout
  by_cases plain : style.plainFrom ≤ point - 1 ∧ point - 1 < style.plainBelow
  · rw [if_pos plain]
    by_cases small : point ≤ 0
    · rw [if_pos small]
      exact shows_below_one h nonempty small
    · rw [if_neg small]
      by_cases long : (ds.length : Int) ≤ point
      · rw [if_pos long]
        exact shows_whole h nonempty leading long
      · rw [if_neg long]
        exact shows_among h leading (by omega) (by omega)
  · rw [if_neg plain]
    refine shows_scientific h nonempty leading (fun c hc => ?_) ?_ ?_
    · split at hc
      · rcases List.mem_cons.mp hc with rfl | hc
        · decide
        · exact isDigit_of_mem_digits hc
      · exact isDigit_of_mem_digits hc
    · split
      · exact List.cons_ne_nil _ _
      · exact digits_ne_nil _
    · have size : Decimal.value (digits (point - 1).natAbs) = (point - 1).natAbs := value_digits _
      split
      · exact congrArg Int.ofNat size
      · rw [size]

end Layout

theorem number_positive (style : Style) {rank : Nat} (h : rank ≤ binary64.top) (positive : rank ≠ 0)
    (negative : Bool) (position : Nat) {after : List Char} (ends : Ends after) :
    ∃ position', number ⟨position, signed negative (style.positive rank) ++ after⟩ =
      .ok (.float (.number negative ⟨rank, Nat.lt_succ_of_le h⟩), ⟨position', after⟩) := by
  have nonzero := shortest_coefficient_ne_zero h positive
  obtain ⟨whole, fraction, exponent, power, text, parts, float, value⟩ := shows_layout
    (fun c hc => isDigit_of_mem_significant hc) (significant_ne_nil nonzero) (head_significant nonzero) style
    ((digits (shortest rank).coefficient).length + (shortest rank).exponent)
  obtain ⟨position', read⟩ := parts.read negative position ends
  refine ⟨position', ?_⟩
  rw [significant_value] at value
  have reads := Scientific.readsAs_iff.mp (shortest_readsAs h)
  rw [Style.positive, text, signed_append, List.append_assoc, List.append_assoc, read, if_neg float,
    toDouble_eq, value,
    Double.ofRational_eq (r := ⟨rank, Nat.lt_succ_of_le h⟩) _ reads]

end Json

end Covenant
