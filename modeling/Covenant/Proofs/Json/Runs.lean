import Covenant.Proofs.Except
import Covenant.Proofs.Json.Numbers
import Covenant.Proofs.Text.Lines
/-!
Long numbers and deep nesting in JSON text:

* `Text.HasRun`: more than so many digits stand in a row in a text;
* `hasRun_of_tooLong`: only where they do is an integer too long to be read;
* `lt_openings_of_tooDeep`: only a text that opens more arrays and objects than there is room for is
  nested too deep;
* `exists_digits_of_read`: an integer that is read has its digits in the text;
* `le_natAbs_of_isInfinite`: an integer beyond the doubles has more than 308 of them.
-/

namespace Covenant

open Decimal

/-! ## Runs of digits -/

namespace Text

/-- More than so many digits, of any script, stand in a row in a text. -/
def HasRun (n : Nat) (s : List Char) : Prop :=
  ∃ ds, ds <:+: s ∧ (∀ c ∈ ds, (digit? c).isSome = true) ∧ n < ds.length

namespace HasRun

variable {n m : Nat} {s t : List Char}

theorem mono (h : HasRun n s) (inside : s <:+: t) : HasRun n t := by
  obtain ⟨ds, within, digits, long⟩ := h
  exact ⟨ds, within.trans inside, digits, long⟩

theorem of_le (h : HasRun n s) (le : m ≤ n) : HasRun m s := by
  obtain ⟨ds, within, digits, long⟩ := h
  exact ⟨ds, within, digits, le.trans_lt long⟩

theorem of_isDigit {ds : List Char} (inside : ds <:+: s) (digits : ∀ c ∈ ds, IsDigit c)
    (long : n < ds.length) : HasRun n s := by
  refine ⟨ds, inside, fun c hc => ?_, long⟩
  rw [digit?_of_isDigit (digits c hc)]
  rfl

end HasRun

end Text

/-! ## Reading -/

namespace Json

open Text (HasRun digitLimit)

theorem isDigit_of_mem_takeDigits {s : List Char} {c : Char} (h : c ∈ takeDigits s) : IsDigit c :=
  by
  have all := List.all_takeWhile (p := fun c => decide ('0' ≤ c ∧ c ≤ '9')) (l := s)
  exact of_decide_eq_true (List.all_eq_true.mp all c h)

/-- How many arrays and objects a text opens, brackets inside strings counted as well. -/
def openings (s : List Char) : Nat := s.countP fun c => c == '[' || c == '\x7b'

theorem openings_mono {s t : List Char} (h : s <:+: t) : openings s ≤ openings t :=
  h.sublist.countP_le

/-- A reading that goes on where it says inside a text. It finds an integer too long only where the text
has a long run of digits, and parts nested too deep only where the text opens more than there is room
for. -/
structure Within {α : Type} (room : Nat) (s : List Char) (r : Except Fault (α × Cursor)) : Prop where
  after : ∀ a c, r = .ok (a, c) → c.rest <:+ s
  long : r = .error .tooLong → HasRun digitLimit s
  deep : r = .error .tooDeep → room < openings s

namespace Within

variable {α β : Type} {room : Nat} {s t : List Char}

theorem ok {c : Cursor} (a : α) (h : c.rest <:+ s) : Within room s (.ok (a, c)) where
  after _ _ same := by
    cases same
    exact h
  long := nofun
  deep := nofun

theorem error {expected : Expected} {position : Nat} :
    Within room s (.error (.at expected position) : Except Fault (α × Cursor)) where
  after := nofun
  long := nofun
  deep := nofun

theorem fail (c : Cursor) (expected : Expected) :
    Within room s (c.fail expected : Except Fault (α × Cursor)) := error

theorem mono {r : Except Fault (α × Cursor)} (h : Within room s r) (inside : s <:+ t) :
    Within room t r where
  after a c same := (h.after a c same).trans inside
  long same := (h.long same).mono inside.isInfix
  deep same := (h.deep same).trans_le (openings_mono inside.isInfix)

theorem bind {r : Except Fault (α × Cursor)} {f : α × Cursor → Except Fault (β × Cursor)}
    (hr : Within room s r) (hf : ∀ a c, c.rest <:+ s → Within room s (f (a, c))) :
    Within room s (r >>= f) := by
  cases r with
  | ok p => exact hf p.1 p.2 (hr.after p.1 p.2 rfl)
  | error fault =>
    exact ⟨nofun, fun same => hr.long (by cases same; rfl), fun same => hr.deep (by cases same; rfl)⟩

/-- Behind a bracket there is room for one less, and one has been opened. -/
theorem opened {c : Char} {r : Except Fault (α × Cursor)} (bracket : c = '[' ∨ c = '\x7b')
    (h : Within room s r) : Within (room + 1) (c :: s) r where
  after a next same := (h.after a next same).trans (List.suffix_cons c s)
  long same := (h.long same).mono (List.suffix_cons c s).isInfix
  deep same := by
    have counted : openings (c :: s) = openings s + 1 :=
      List.countP_cons_of_pos (by rcases bracket with rfl | rfl <;> rfl)
    have inside := h.deep same
    omega

/-- Without room a bracket is one too many. -/
theorem full {c : Char} (bracket : c = '[' ∨ c = '\x7b') :
    Within 0 (c :: s) (.error .tooDeep : Except Fault (α × Cursor)) where
  after := nofun
  long := nofun
  deep _ := List.countP_pos_iff.mpr
    ⟨c, List.mem_cons_self, by rcases bracket with rfl | rfl <;> rfl⟩

end Within

theorem drop_suffix (c : Cursor) (n : Nat) : (c.drop n).rest <:+ c.rest := List.drop_suffix n c.rest

theorem skipSpace_suffix (c : Cursor) : c.skipSpace.rest <:+ c.rest := drop_suffix c _

/-- An escape by number fails at a position. -/
theorem exists_of_numberEscape {position : Nat} {s : List Char} {fault : Fault}
    (h : numberEscape position s = .error fault) : ∃ expected at', fault = .at expected at' := by
  unfold numberEscape at h
  split at h
  · cases h
    exact ⟨_, _, rfl⟩
  · split at h
    · cases h
      exact ⟨_, _, rfl⟩
    · split at h
      · split at h
        · cases h
          exact ⟨_, _, rfl⟩
        · split at h <;> cases h
      · cases h

theorem within_stringFrom (room start fuel : Nat) (c : Cursor) (read : List Char) :
    Within room c.rest (stringFrom start fuel c read) := by
  induction fuel generalizing c read with
  | zero => exact .error
  | succ fuel ih =>
    have step : ∀ n read, Within room c.rest (stringFrom start fuel (c.drop n) read) :=
      fun n read => (ih (c.drop n) read).mono (drop_suffix c n)
    unfold stringFrom
    split
    · exact .error
    · exact .ok _ (drop_suffix c 1)
    · exact .error
    next rest eq =>
      cases escape : numberEscape (c.position + 1) rest with
      | ok p => exact step _ _
      | error fault =>
        obtain ⟨expected, position, rfl⟩ := exists_of_numberEscape escape
        exact .error
    · split
      · exact step _ _
      · exact .fail c _
    · split
      · exact .fail c _
      · exact step _ _

/-- The digits of a whole number stand where it is read. -/
theorem whole_infix (s : List Char) (n : Nat) {all whole : List Char} (read : takeDigits (s.drop n) = all)
    (leading : (if all.head? = some '0' then ['0'] else all) = whole) :
    whole <:+: s ∧ ∀ c ∈ whole, IsDigit c := by
  subst read leading
  have inside : takeDigits (s.drop n) <:+: s :=
    (List.takeWhile_prefix _).isInfix.trans (List.drop_suffix n s).isInfix
  have digits : ∀ c ∈ takeDigits (s.drop n), IsDigit c := fun c hc => isDigit_of_mem_takeDigits hc
  split
  next zero =>
    obtain ⟨rest, start⟩ := List.head?_eq_some_iff.mp zero
    rw [start] at inside digits
    refine ⟨(List.prefix_append ['0'] rest).isInfix.trans inside, fun c hc => digits c ?_⟩
    exact List.mem_cons.mpr (.inl (List.mem_singleton.mp hc))
  next => exact ⟨inside, digits⟩

/-- A number is none, too long, an integer or a double, all by the digits where it starts. -/
theorem number_cases (c : Cursor) : ∃ ds, ds <:+: c.rest ∧ (∀ d ∈ ds, IsDigit d) ∧
    (number c = c.fail .value ∨ (number c = .error .tooLong ∧ digitLimit < ds.length) ∨
      (∃ i n, number c = .ok (.integer i, c.drop n) ∧ i.natAbs = Decimal.value ds) ∨
      ∃ x n, number c = .ok (.float x, c.drop n)) := by
  obtain ⟨inside, digits⟩ := whole_infix c.rest (signOf c.rest).2 rfl rfl
  refine ⟨_, inside, digits, ?_⟩
  rw [number_eq]
  dsimp only
  generalize (if (takeDigits (c.rest.drop (signOf c.rest).2)).head? = some '0' then ['0']
    else takeDigits (c.rest.drop (signOf c.rest).2)) = whole
  generalize (if (fractionOf (c.rest.drop ((signOf c.rest).2 + whole.length))).isEmpty = true then 0
    else 1 + (fractionOf (c.rest.drop ((signOf c.rest).2 + whole.length))).length) = size
  split
  · exact .inl rfl
  · split
    · split
      next long => exact .inr (.inl ⟨rfl, long⟩)
      next => exact .inr (.inr (.inl ⟨_, _, rfl, by split <;> omega⟩))
    · exact .inr (.inr (.inr ⟨_, _, rfl⟩))

theorem within_number (room : Nat) (c : Cursor) : Within room c.rest (number c) := by
  obtain ⟨ds, inside, digits, none | ⟨tooLong, long⟩ | ⟨i, n, integer, -⟩ | ⟨x, n, float⟩⟩ := number_cases c
  · exact none ▸ .fail c _
  · exact tooLong ▸ ⟨nofun, fun _ => .of_isDigit inside digits long, nofun⟩
  · exact integer ▸ .ok _ (drop_suffix c n)
  · exact float ▸ .ok _ (drop_suffix c n)

theorem within_scalar (room : Nat) (c : Cursor) : Within room c.rest (scalar c) := by
  unfold scalar
  split
  · exact ((within_stringFrom room _ _ (c.drop 1) []).mono (drop_suffix c 1)).bind
      fun s next inside => .ok _ inside
  · split
    · exact .ok _ (drop_suffix c _)
    · exact within_number room c

/-- Blanks behind a bracket are inside it. -/
theorem begun_suffix {c : Cursor} {bracket : Char} {s : List Char} (h : c.rest = bracket :: s) :
    (c.drop 1).skipSpace.rest <:+ s := by
  have inner : (c.drop 1).rest = s := by rw [Cursor.drop, h]; rfl
  exact inner ▸ skipSpace_suffix (c.drop 1)

mutual
theorem within_value : ∀ (fuel room : Nat) (c : Cursor), Within room c.rest (value fuel room c)
  | 0, _, c => .fail c _
  | fuel + 1, room, c => by
    unfold value
    split
    next s start =>
      rw [start]
      cases room with
      | zero => exact .full (.inl rfl)
      | succ room =>
        have begun := begun_suffix start
        refine .opened (.inl rfl) ?_
        dsimp only
        split
        · exact .ok _ ((drop_suffix _ 1).trans begun)
        · exact ((within_items fuel room _).mono begun).bind fun items next inside => .ok _ inside
    next s start =>
      rw [start]
      cases room with
      | zero => exact .full (.inr rfl)
      | succ room =>
        have begun := begun_suffix start
        refine .opened (.inr rfl) ?_
        dsimp only
        split
        · exact .ok _ ((drop_suffix _ 1).trans begun)
        · exact ((within_members fuel room _).mono begun).bind fun members next inside => .ok _ inside
    · exact within_scalar room c

theorem within_items : ∀ (fuel room : Nat) (c : Cursor), Within room c.rest (items fuel room c)
  | 0, _, c => .fail c _
  | fuel + 1, room, c => by
    unfold items
    refine (within_value fuel room c).bind fun item next inside => ?_
    have later : next.skipSpace.rest <:+ c.rest := (skipSpace_suffix next).trans inside
    have further : (next.skipSpace.drop 1).rest <:+ c.rest := (drop_suffix _ 1).trans later
    dsimp only
    split
    · exact .ok _ further
    · exact ((within_items fuel room (next.skipSpace.drop 1).skipSpace).mono
        ((skipSpace_suffix _).trans further)).bind fun rest last inside => .ok _ inside
    · exact .fail _ _

theorem within_members : ∀ (fuel room : Nat) (c : Cursor), Within room c.rest (members fuel room c)
  | 0, _, c => .fail c _
  | fuel + 1, room, c => by
    unfold members
    split
    · refine ((within_stringFrom room _ _ (c.drop 1) []).mono (drop_suffix c 1)).bind
        fun name next inside => ?_
      have named : (next.skipSpace.drop 1).skipSpace.rest <:+ c.rest :=
        (skipSpace_suffix _).trans ((drop_suffix _ 1).trans ((skipSpace_suffix next).trans inside))
      dsimp only
      split
      · refine ((within_value fuel room _).mono named).bind fun item next inside => ?_
        have further : (next.skipSpace.drop 1).rest <:+ c.rest :=
          (drop_suffix _ 1).trans ((skipSpace_suffix next).trans inside)
        dsimp only
        split
        · exact .ok _ further
        · exact ((within_members fuel room (next.skipSpace.drop 1).skipSpace).mono
            ((skipSpace_suffix _).trans further)).bind fun rest last inside => .ok _ inside
        · exact .fail _ _
      · exact .fail _ _
    · exact .fail c _
end

/-- A whole text is too long or too deep only where its value is. -/
theorem readWithin_eq_error {room : Nat} {s : List Char} {fault : Fault}
    (other : ∀ expected position, fault ≠ .at expected position) (h : readWithin room s = .error fault) :
    value (2 * s.length + 1) room (Cursor.skipSpace ⟨0, s⟩) = .error fault := by
  unfold readWithin at h
  split at h
  · cases h
    exact absurd rfl (other _ _)
  rcases bind_eq_error.mp h with fails | ⟨p, -, ends⟩
  · exact fails
  · dsimp only at ends
    split at ends <;> cases ends
    exact absurd rfl (other _ _)

variable {room : Nat} {s : List Char}

/-- An integer is too long to be read only where the text has a long run of digits. -/
theorem hasRun_of_tooLong (h : readWithin room s = .error .tooLong) : HasRun digitLimit s :=
  ((within_value _ room _).mono (skipSpace_suffix ⟨0, s⟩)).long (readWithin_eq_error nofun h)

/-- A text is nested too deep only where it opens more arrays and objects than there is room for. -/
theorem lt_openings_of_tooDeep (h : readWithin room s = .error .tooDeep) : room < openings s :=
  ((within_value _ room _).mono (skipSpace_suffix ⟨0, s⟩)).deep (readWithin_eq_error nofun h)

/-! ## Integers -/

/-- The digits of an integer stand where it is read. -/
theorem exists_digits_of_number {c next : Cursor} {i : Int} (h : number c = .ok (.integer i, next)) :
    ∃ ds, ds <:+: c.rest ∧ (∀ d ∈ ds, IsDigit d) ∧ i.natAbs = Decimal.value ds := by
  obtain ⟨ds, inside, digits, none | ⟨tooLong, -⟩ | ⟨j, n, integer, value⟩ | ⟨x, n, float⟩⟩ := number_cases c
  · cases h.symm.trans none
  · cases h.symm.trans tooLong
  · cases h.symm.trans integer
    exact ⟨ds, inside, digits, value⟩
  · cases h.symm.trans float

/-- The digits of an integer that is read stand in the text. -/
theorem exists_digits_of_read {i : Int} (h : readWithin room s = .ok (.integer i)) :
    ∃ ds, ds <:+: s ∧ (∀ d ∈ ds, IsDigit d) ∧ i.natAbs = Decimal.value ds := by
  unfold readWithin at h
  split at h
  · cases h
  obtain ⟨⟨d, next⟩, whole, ends⟩ := bind_eq_ok.mp h
  dsimp only at ends
  split at ends
  next =>
    cases ends
    unfold value at whole
    split at whole
    · split at whole
      · cases whole
      dsimp only at whole
      split at whole
      · cases whole
      · obtain ⟨items, -, same⟩ := bind_eq_ok.mp whole
        cases same
    · split at whole
      · cases whole
      dsimp only at whole
      split at whole
      · cases whole
      · obtain ⟨members, -, same⟩ := bind_eq_ok.mp whole
        cases same
    · unfold scalar at whole
      split at whole
      · obtain ⟨text, -, same⟩ := bind_eq_ok.mp whole
        cases same
      · split at whole
        next w hw =>
          have word := List.mem_of_find?_eq_some hw
          have none : ∀ w ∈ words, ∀ i, w.2 ≠ .integer i := by
            intro w hw i
            fin_cases hw <;> nofun
          exact absurd (congrArg Prod.fst (Except.ok.inj whole)) (none w word i)
        next =>
          obtain ⟨ds, inside, digits⟩ := exists_digits_of_number whole
          exact ⟨ds, inside.trans (skipSpace_suffix ⟨0, s⟩).isInfix, digits⟩
  next => cases ends

end Json

/-! ## Integers beyond the doubles -/

theorem Decimal.value_lt {ds : List Char} (h : ∀ c ∈ ds, IsDigit c) {n : Nat} (short : ds.length ≤ n) :
    value ds < 10 ^ n := by
  refine lt_of_lt_of_le ?_ (Nat.pow_le_pow_right (by decide) short)
  clear short
  induction ds with
  | nil => exact Nat.one_pos
  | cons c ds ih =>
    have rest := ih fun d hd => h d (List.mem_cons_of_mem _ hd)
    have first : value [c] ≤ 9 := by
      have high : c.toNat ≤ '9'.toNat := (h c List.mem_cons_self).2
      simp only [value, List.foldl_cons, List.foldl_nil, Char.reduceToNat] at high ⊢
      omega
    have split := value_append [c] ds
    rw [List.singleton_append] at split
    rw [split, List.length_cons, pow_succ]
    nlinarith

theorem roundHalf_le {q : ℚ} (positive : 0 ≤ q) {n : Nat} (h : q ≤ n) : roundHalf q ≤ n := by
  have below : (⌊q⌋₊ : ℚ) ≤ q := Nat.floor_le positive
  unfold roundHalf
  split
  next up =>
    have above : (⌊q⌋₊ : ℚ) < n := by
      rcases up with more | ⟨half, -⟩ <;> linarith
    exact_mod_cast above
  next =>
    have floor : (⌊q⌋₊ : ℚ) ≤ n := below.trans h
    exact_mod_cast floor

/-- A number of at most 308 digits is rounded to a finite double. -/
theorem nearest_lt_top {n : Nat} (h : n < 10 ^ 308) : binary64.nearest n < binary64.top := by
  by_cases zero : n = 0
  · rw [zero, BinaryFormat.nearest, Nat.cast_zero, if_pos rfl]
    decide
  have positive : (0 : ℚ) < n := by exact_mod_cast Nat.pos_of_ne_zero zero
  have log : Int.log 2 (n : ℚ) < 1024 := by
    have power : 10 ^ 308 < 2 ^ 1024 := by decide +kernel
    refine (Int.lt_zpow_iff_log_lt (by norm_num) positive).mp ?_
    exact_mod_cast h.trans power
  have power : (n : ℚ) < 2 ^ (Int.log 2 (n : ℚ) + 1) := by
    exact_mod_cast Int.lt_zpow_succ_log_self (b := 2) (by norm_num) (n : ℚ)
  have last : binary64.lastExponent n = max (-1074) (Int.log 2 (n : ℚ) - 52) := rfl
  obtain ⟨e, exponent⟩ : ∃ e, binary64.lastExponent n = e := ⟨_, rfl⟩
  rw [exponent] at last
  have within : ∀ m : Nat, (n : ℚ) ≤ m * 2 ^ e → roundHalf (n * 2 ^ (-e)) ≤ m := by
    intro m hm
    refine roundHalf_le (by positivity) ?_
    rw [zpow_neg, ← div_eq_mul_inv, div_le_iff₀ (zpow_pos (by norm_num) _)]
    exact hm
  -- a smaller exponent leaves room for any fraction, and with the largest one the fraction is smaller
  have room : (e + 1074).toNat * 2 ^ 52 + roundHalf (n * 2 ^ (-e)) < 2047 * 2 ^ 52 := by
    rcases lt_or_ge e 971 with small | large
    · have fraction : roundHalf (n * 2 ^ (-e)) ≤ 2 ^ 53 := by
        refine within _ (power.le.trans ?_)
        rw [Nat.cast_pow, Nat.cast_ofNat, ← zpow_natCast, ← zpow_add₀ (by norm_num)]
        exact zpow_le_zpow_right₀ (by norm_num) (by omega)
      omega
    · obtain rfl : e = 971 := by omega
      have fraction : roundHalf (n * 2 ^ (-971 : Int)) ≤ 2 ^ 53 - 1 := by
        have power : 10 ^ 308 < (2 ^ 53 - 1) * 2 ^ 971 := by decide +kernel
        have cast : (n : ℚ) < ((2 ^ 53 - 1) * 2 ^ 971 : Nat) := Nat.cast_lt.mpr (h.trans power)
        rw [Nat.cast_mul, Nat.cast_pow, Nat.cast_ofNat, ← zpow_natCast] at cast
        exact within _ cast.le
      omega
  have top : binary64.top = 2047 * 2 ^ 52 := by decide
  have lowest : binary64.lowestExponent = -1074 := rfl
  have bits : binary64.fractionBits = 52 := rfl
  rw [BinaryFormat.nearest, if_neg positive.ne', exponent, lowest, bits, sub_neg_eq_add, Nat.shiftLeft_eq,
    top]
  exact (Nat.min_le_right _ _).trans_lt room

/-- An integer beyond the doubles has more than 308 digits. -/
theorem le_natAbs_of_isInfinite {i : Int} (h : (Double.ofInt i).isInfinite = true) :
    10 ^ 308 ≤ i.natAbs := by
  by_contra short
  have finite := nearest_lt_top (Nat.not_le.mp short)
  have rank : binary64.rank i.natAbs 1 = binary64.nearest (i.natAbs / (1 : Nat)) :=
    binary64.rank_eq_nearest i.natAbs Nat.one_ne_zero
  rw [Nat.cast_one, div_one] at rank
  have top : binary64.rank i.natAbs 1 = binary64.top := beq_iff_eq.mp h
  omega

/-- Where an integer beyond the doubles is read from, more than 308 digits stand in a row. -/
theorem Json.hasRun_of_isInfinite {room : Nat} {s : List Char} {i : Int}
    (h : readWithin room s = .ok (.integer i))
    (large : (Double.ofInt i).isInfinite = true) : Text.HasRun 308 s := by
  obtain ⟨ds, inside, digits, value⟩ := exists_digits_of_read h
  refine .of_isDigit inside digits (Nat.lt_of_not_le fun short => ?_)
  have large := le_natAbs_of_isInfinite large
  rw [value] at large
  exact absurd (value_lt digits short) (Nat.not_lt.mpr large)

end Covenant
