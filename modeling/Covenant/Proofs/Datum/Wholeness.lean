import Covenant.Proofs.Datum.Each
import Covenant.Proofs.Lists
/-!
Data in which nothing is absent.

* `Datum.Whole`, `Datum.Filled`: no part of a datum is absent, or none but the datum itself;
* `Datum.Filled.member`, `Datum.Filled.arith` and their kin: what is taken from such data, put together of
  whole ones or computed with them is whole.
-/

namespace Covenant.Datum

/-- Nothing is absent, neither the datum nor a part of it at any depth. -/
def Whole (d : Datum) : Prop := d.Each (· ≠ .null)

/-- Nothing is absent inside a datum; it may be absent itself. -/
def Filled (d : Datum) : Prop := d = .null ∨ d.Whole

theorem Whole.filled {d : Datum} (h : d.Whole) : d.Filled := .inr h

theorem filled_null : Datum.null.Filled := .inl rfl

theorem Filled.whole {d : Datum} (h : d.Filled) (present : d ≠ .null) : d.Whole := h.resolve_left present

@[simp] theorem whole_text (s : String) : (text s).Whole := .atom rfl nofun

@[simp] theorem whole_bytes (b : Bytes) : (bytes b).Whole := .atom rfl nofun

@[simp] theorem whole_integer (i : Int) : (integer i).Whole := .atom rfl nofun

@[simp] theorem whole_float (x : Double) : (float x).Whole := .atom rfl nofun

@[simp] theorem whole_boolean (b : Bool) : (boolean b).Whole := .atom rfl nofun

@[simp] theorem whole_key (k : Key) : (key k).Whole := .atom rfl nofun

@[simp] theorem whole_list {items : List Datum} : (list items).Whole ↔ ∀ d ∈ items, d.Whole := each_list

@[simp] theorem whole_record {fields : Fields} : (record fields).Whole ↔ ∀ m ∈ fields, m.2.Whole :=
  each_record

/-- What is absent has no items and no members. -/
theorem filled_list {items : List Datum} : (list items).Filled ↔ ∀ d ∈ items, d.Whole := by
  simp [Filled]

theorem filled_record {fields : Fields} : (record fields).Filled ↔ ∀ m ∈ fields, m.2.Whole := by
  simp [Filled]

theorem whole_number (n : Number) : n.toDatum.Whole := by
  cases n <;> simp [Number.toDatum]

section Parts

variable {d e value : Datum} {name : String}

theorem Filled.parts (h : d.Filled) {parts : List Datum} (hp : d.parts = .ok parts) :
    ∀ part ∈ parts, part.Whole := by
  cases d with
  | list items =>
    cases hp
    exact filled_list.mp h
  | text | bytes | record =>
    cases hp
    refine List.forall_mem_map.mpr fun _ _ => ?_
    simp
  | _ => cases hp

theorem Filled.member (h : d.Filled) (hm : d.member name = .ok e) : e.Whole := by
  obtain ⟨fields, rfl, found⟩ := exists_of_member hm
  exact filled_record.mp h _ (mem_of_lookup found)

theorem whole_of_pair {p : String × Datum} (h : d.Whole) (hp : d.pair = .ok p) : p.2.Whole := by
  unfold pair at hp
  split at hp
  next parts =>
    cases hp
    exact h.filled.parts parts _ (by simp)
  all_goals cases hp

theorem Filled.toFields (h : d.Filled) {fields : Fields} (hf : d.toFields = .ok fields) :
    ∀ m ∈ fields, m.2.Whole := by
  have general : (do
      let parts ← d.parts
      return ofMembers (← parts.mapM pair)) = .ok fields → ∀ m ∈ fields, m.2.Whole := by
    intro hf m hm
    obtain ⟨parts, hp, hf⟩ := bind_eq_ok.mp hf
    obtain ⟨members, made, hf⟩ := bind_eq_ok.mp hf
    obtain rfl := pure_eq_ok.mp hf
    obtain ⟨part, own, read⟩ := exists_of_forall₂ (mapM_eq_ok.mp made) (mem_of_mem_ofMembers hm)
    exact whole_of_pair (h.parts hp part own) read
  cases d with
  | record fields =>
    cases hf
    exact filled_record.mp h
  | _ => exact general hf

theorem Filled.withMember (h : d.Filled) (whole : value.Whole) (hd : d.withMember name value = .ok e) :
    e.Whole := by
  obtain ⟨fields, hf, rfl⟩ := exists_withMember hd
  refine whole_record.mpr fun m hm => ?_
  rcases mem_of_mem_setField hm with rfl | old
  · exact whole
  · exact h.toFields hf m old

theorem Filled.element {index : Datum} (h : d.Filled) (he : d.element index = .ok e) : e.Whole := by
  obtain ⟨parts, i, hp, -, -, found⟩ := exists_element he
  exact h.parts hp e (List.mem_of_getElem? found)

theorem Filled.withElement {index : Datum} (h : d.Filled) (whole : value.Whole)
    (hd : d.withElement index value = .ok e) : e.Whole := by
  obtain ⟨parts, i, hp, -, -, rfl⟩ := exists_withElement hd
  refine whole_list.mpr fun part hm => ?_
  rcases List.mem_or_eq_of_mem_set hm with old | rfl
  · exact h.parts hp part old
  · exact whole

theorem Filled.appended (h : d.Filled) (whole : value.Whole) (hd : d.appended value = .ok e) : e.Whole := by
  obtain ⟨parts, hp, hd⟩ := bind_eq_ok.mp hd
  obtain rfl := pure_eq_ok.mp hd
  simpa [or_imp, forall_and, whole] using h.parts hp

theorem whole_of_indexOf (hd : d.indexOf value = .ok e) : e.Whole := by
  obtain ⟨parts, -, hd⟩ := bind_eq_ok.mp hd
  split at hd <;> cases pure_eq_ok.mp hd <;> simp

end Parts

/-! ## Arithmetic -/

section Arithmetic

variable {a b r : Datum} {origin : Origin}

theorem whole_of_combine {f : Int → Int → Int} {g : Double → Double → Double}
    (h : (do
      let x ← a.asNumber
      let y ← b.asNumber
      return (← Number.combine f g x y).toDatum) = .ok r) : r.Whole := by
  obtain ⟨x, -, h⟩ := bind_eq_ok.mp h
  obtain ⟨y, -, h⟩ := bind_eq_ok.mp h
  obtain ⟨n, -, h⟩ := bind_eq_ok.mp h
  obtain rfl := pure_eq_ok.mp h
  exact whole_number n

theorem Filled.plus (ha : a.Filled) (hb : b.Filled) (h : a.plus origin b = .ok r) : r.Whole := by
  unfold Datum.plus at h
  split at h
  · cases h
    simp
  · cases h
    simp
  · cases h
    refine whole_list.mpr fun d hd => ?_
    exact (List.mem_append.mp hd).elim (filled_list.mp ha d) (filled_list.mp hb d)
  · exact whole_of_combine h

theorem whole_repeated {parts : List Datum} (h : ∀ d ∈ parts, d.Whole) (n : Int) :
    (list (repeated n parts)).Whole := by
  refine whole_list.mpr fun d hd => ?_
  obtain ⟨copy, hc, hd⟩ := List.mem_flatten.mp hd
  rw [List.eq_of_mem_replicate hc] at hd
  exact h d hd

theorem Filled.times (ha : a.Filled) (hb : b.Filled) (h : a.times origin b = .ok r) : r.Whole := by
  unfold Datum.times at h
  split at h
  · obtain ⟨n, -, h⟩ := bind_eq_ok.mp h
    obtain rfl := pure_eq_ok.mp h
    exact whole_number n
  · cases h
    simp
  · cases h
    simp
  · cases h
    simp
  · cases h
    simp
  · cases h
    exact whole_repeated (filled_list.mp ha) _
  · cases h
    exact whole_repeated (filled_list.mp hb) _
  · cases h

theorem whole_of_negated (h : a.negated origin = .ok r) : r.Whole := by
  obtain ⟨x, -, h⟩ := bind_eq_ok.mp h
  obtain rfl := pure_eq_ok.mp h
  exact whole_number _

theorem Filled.raw (ha : a.Filled) (hb : b.Filled) {op : Arith} {isFloat : Bool}
    (h : Datum.raw origin op isFloat a b = .ok r) : r.Whole := by
  cases op with
  | add => exact ha.plus hb h
  | sub => exact whole_of_combine h
  | mul => exact ha.times hb h
  | div =>
    obtain ⟨x, -, h⟩ := bind_eq_ok.mp h
    obtain ⟨y, -, h⟩ := bind_eq_ok.mp h
    split at h <;>
      · obtain ⟨n, -, h⟩ := bind_eq_ok.mp h
        obtain rfl := pure_eq_ok.mp h
        exact whole_number n
  | mod =>
    obtain ⟨x, -, h⟩ := bind_eq_ok.mp h
    obtain ⟨y, -, h⟩ := bind_eq_ok.mp h
    split at h
    · obtain ⟨x', -, h⟩ := bind_eq_ok.mp h
      obtain ⟨y', -, h⟩ := bind_eq_ok.mp h
      split at h
      · obtain rfl := pure_eq_ok.mp h
        simp
      · cases h
    · obtain ⟨q, -, h⟩ := bind_eq_ok.mp h
      obtain ⟨p, -, h⟩ := bind_eq_ok.mp h
      obtain ⟨n, -, h⟩ := bind_eq_ok.mp h
      obtain rfl := pure_eq_ok.mp h
      exact whole_number n
  | neg | other _ => exact whole_of_negated h

theorem whole_of_single (h : a.single origin = .ok r) : r.Whole := by
  unfold Datum.single at h
  split at h
  · cases h
    simp
  · split at h
    · dsimp only at h
      split at h <;> cases h
      simp
    · cases h

theorem Filled.arith (ha : a.Filled) (hb : b.Filled) {op : Arith} {p : Primitive}
    (h : a.arith origin op p b = .ok r) : r.Whole := by
  unfold Datum.arith at h
  split at h
  · cases h
  obtain ⟨x, hx, h⟩ := bind_eq_ok.mp h
  have whole := ha.raw hb (Failure.lift_eq_ok.mp hx)
  split at h
  · obtain rfl := pure_eq_ok.mp h
    exact whole
  split at h
  · exact whole_of_single (Failure.lift_eq_ok.mp h)
  split at h
  · cases h
  · obtain ⟨n, -, h⟩ := bind_eq_ok.mp h
    split at h
    · obtain rfl := pure_eq_ok.mp h
      exact whole
    · cases h

end Arithmetic

end Covenant.Datum
