import Covenant.Proofs.Text.Utf8
import Covenant.Proofs.Value.Reading
import Covenant.Value.Encoding
/-!
The byte form of values tells them apart, and so do the messages that commitments hash.

* `Separates`: bytes that stay apart whatever follows them;
* `Value.Writable`, `Value.exists_encode`: values that have a byte form, among them all values of types;
* `Value.IsMeasured`: no part of the value has more than eight bytes can count, or is no number;
* `Value.encode_separates`: the byte forms of different values stay apart;
* `Value.commitments_bind`: so a message determines what it commits to, and a message for a field is
  none for a value alone.
-/

namespace Covenant

open Sha256 (bigEndian length_bigEndian)

/-! ## Bytes that stay apart -/

/-- Bytes that can be the same with something after them only in one case, and then the same follows. -/
def Separates (b c : Bytes) (same : Prop) : Prop := ∀ s t, b ++ s = c ++ t → same ∧ s = t

namespace Separates

variable {b b' c c' : Bytes} {same same' : Prop}

theorem of_length (length : b.length = c.length) (h : b = c → same) : Separates b c same := by
  intro s t e
  obtain ⟨first, rest⟩ := List.append_inj e length
  exact ⟨h first, rest⟩

theorem imp (h : Separates b c same) (weaker : same → same') : Separates b c same' :=
  fun s t e => ⟨weaker (h s t e).1, (h s t e).2⟩

/-- What comes first decides what comes second. -/
theorem append (first : Separates b c same) (second : same → Separates b' c' same') :
    Separates (b ++ b') (c ++ c') (same ∧ same') := by
  intro s t e
  rw [List.append_assoc, List.append_assoc] at e
  obtain ⟨left, e⟩ := first _ _ e
  obtain ⟨right, rest⟩ := second left _ _ e
  exact ⟨⟨left, right⟩, rest⟩

/-- The first byte tells which of the forms is there. -/
theorem tagged {x y : UInt8} (h : x = y → Separates b c same) : Separates (x :: b) (y :: c) same := by
  intro s t e
  obtain ⟨tag, e⟩ := List.cons.inj e
  exact h tag s t e

/-- With nothing after them. -/
theorem of_eq (h : Separates b c same) (e : b = c) : same :=
  (h [] [] (by rw [e])).1

end Separates

theorem bigEndian_injective {n i j : Nat} (hi : i < 256 ^ n) (hj : j < 256 ^ n)
    (h : bigEndian n i = bigEndian n j) : i = j := by
  rw [← Key.ofBytes_bigEndian hi, h, Key.ofBytes_bigEndian hj]

theorem separates_bigEndian {n i j : Nat} (hi : i < 256 ^ n) (hj : j < 256 ^ n) :
    Separates (bigEndian n i) (bigEndian n j) (i = j) :=
  .of_length (by rw [length_bigEndian, length_bigEndian]) (bigEndian_injective hi hj)

/-- How many of something eight bytes can count. -/
abbrev countBound : Nat := 0x10000000000000000

theorem Text.utf8_injective {s t : String} (h : utf8 s = utf8 t) : s = t := by
  rw [← ofUtf8_utf8 s, h, ofUtf8_utf8]

theorem Key.separates_coordinates (k l : Key) :
    Separates (coordinateBytes k.x ++ coordinateBytes k.y) (coordinateBytes l.x ++ coordinateBytes l.y)
      (k = l) := by
  have apart : ∀ c d : Coordinate, Separates (coordinateBytes c) (coordinateBytes d) (c = d) := by
    refine fun c d => .of_length (by rw [length_coordinateBytes, length_coordinateBytes]) fun h => ?_
    exact Fin.ext (by rw [← ofBytes_coordinateBytes c, h, ofBytes_coordinateBytes])
  refine ((apart k.x l.x).append fun _ => apart k.y l.y).imp fun same => ?_
  cases k
  cases l
  exact Key.mk.injEq .. ▸ same

namespace Value

theorem separates_counted {b c : Bytes} (hb : b.length < countBound) (hc : c.length < countBound) :
    Separates (counted b) (counted c) (b = c) := by
  have counts := separates_bigEndian (n := 8) hb hc
  exact (counts.append fun same => .of_length same id).imp And.right

theorem separates_text {s t : String} (hs : (Text.utf8 s).length < countBound)
    (ht : (Text.utf8 t).length < countBound) :
    Separates (counted (Text.utf8 s)) (counted (Text.utf8 t)) (s = t) :=
  (separates_counted hs ht).imp Text.utf8_injective

/-! ## Integers -/

theorem integerBytes_of_mem {width : Nat} {low high i : Int} (least : low ≤ i) (greatest : i ≤ high) :
    integerBytes width low high (.integer i) =
      .ok (bigEndian width (i % ((1 <<< (8 * width) : Nat) : Int)).toNat) :=
  if_pos ⟨least, greatest⟩

/-- Two's complement keeps integers apart that are less than its modulus from each other. -/
theorem separates_integer {width : Nat} {low high i j : Int} (narrow : high - low < 256 ^ width)
    (hi : low ≤ i ∧ i ≤ high) (hj : low ≤ j ∧ j ≤ high) :
    Separates (bigEndian width (i % ((1 <<< (8 * width) : Nat) : Int)).toNat)
      (bigEndian width (j % ((1 <<< (8 * width) : Nat) : Int)).toNat) (i = j) := by
  have modulus : (1 <<< (8 * width) : Nat) = 256 ^ width := by
    rw [Nat.one_shiftLeft, Nat.pow_mul]
  have positive : (0 : Int) < (256 ^ width : Nat) := by positivity
  rw [modulus]
  have nonneg := fun k : Int => Int.emod_nonneg k positive.ne'
  have below : ∀ k : Int, (k % ((256 ^ width : Nat) : Int)).toNat < 256 ^ width := by
    intro k
    have := Int.emod_lt_of_pos k positive
    omega
  refine (separates_bigEndian (below i) (below j)).imp fun same => ?_
  have equal : i % ((256 ^ width : Nat) : Int) = j % ((256 ^ width : Nat) : Int) := by
    have := nonneg i
    have := nonneg j
    omega
  have divides : ((256 ^ width : Nat) : Int) ∣ i - j :=
    Int.dvd_of_emod_eq_zero (Int.emod_eq_emod_iff_emod_sub_eq_zero.mp equal)
  have bound : |i - j| < ((256 ^ width : Nat) : Int) := by
    push_cast
    rw [abs_lt]
    constructor <;> omega
  have zero : i - j = 0 := Int.eq_zero_of_abs_lt_dvd divides bound
  omega

end Value

/-! ## Doubles -/

namespace Double

theorem separates_toBits {x y : Double} (hx : x.isNan = false) (hy : y.isNan = false) :
    Separates (bigEndian 8 x.toBits) (bigEndian 8 y.toBits) (x = y) := by
  cases x with
  | nan => cases hx
  | number n r =>
    cases y with
    | nan => cases hy
    | number n' r' =>
      have range := r.isLt
      have range' := r'.isLt
      have bits : ∀ (n : Bool) (r : Fin 0x7ff0000000000001), (number n r).toBits < 256 ^ 8 := by
        intro n r
        have := r.isLt
        cases n <;> simp only [toBits] <;> simp <;> omega
      refine (separates_bigEndian (bits n r) (bits n' r')).imp fun same => ?_
      cases n <;> cases n' <;> simp only [toBits] at same <;> simp at same ⊢ <;> omega

/-- What single precision holds has four bytes. -/
theorem exists_singleBits {x : Double} (single : x.IsSingle) : ∃ bits, x.singleBits = some bits := by
  cases x with
  | nan => exact ⟨_, rfl⟩
  | number n r =>
    have same : roundSingle .literal (.number n r) = .number n r := single.resolve_left (by simp [isNan])
    simp only [singleBits]
    split
    next lost =>
      -- only infinity is rounded to infinity and stays as it is
      have infinite : roundSingle .literal (.number n r) = infinity n := by
        rw [roundSingle, if_pos lost.1]
      rw [same] at infinite
      rw [infinite] at lost
      cases lost.2
    next => exact ⟨_, rfl⟩

theorem singleRank_le (x : Double) : x.singleRank ≤ binary32.top := by
  unfold singleRank
  split
  · exact Nat.le_refl _
  · exact BinaryFormat.rank_le_top ..

theorem separates_singleBits {x y : Double} {i j : Nat} (hx : x.isNan = false) (hy : y.isNan = false)
    (sx : x.IsSingle) (sy : y.IsSingle) (hi : x.singleBits = some i) (hj : y.singleBits = some j) :
    Separates (bigEndian 4 i) (bigEndian 4 j) (x = y) := by
  cases x with
  | nan => cases hx
  | number n r =>
    cases y with
    | nan => cases hy
    | number n' r' =>
      have top : binary32.top = 0x7f800000 := by decide
      have form : ∀ {n : Bool} {r : Fin 0x7ff0000000000001} {i : Nat}, (number n r).singleBits = some i →
          i = (if n then 0x80000000 else 0) + (number n r).singleRank := by
        intro n r i h
        simp only [singleBits] at h
        split at h
        · cases h
        · exact (Option.some.inj h).symm
      have rank := (number n r).singleRank_le
      have rank' := (number n' r').singleRank_le
      rw [top] at rank rank'
      have bits : ∀ {n : Bool} {r : Fin 0x7ff0000000000001} {i : Nat}, (number n r).singleBits = some i →
          i < 256 ^ 4 := by
        intro n r i h
        have rank := (number n r).singleRank_le
        rw [form h]
        split <;> omega
      refine (separates_bigEndian (bits hi) (bits hj)).imp fun same => ?_
      rw [form hi, form hj] at same
      obtain ⟨rfl, ranks⟩ : n = n' ∧ (number n r).singleRank = (number n' r').singleRank := by
        cases n <;> cases n' <;> simp at same ⊢ <;> omega
      have kept : roundSingle .literal (.number n r) = .number n r := sx.resolve_left (by simp [isNan])
      have kept' : roundSingle .literal (.number n r') = .number n r' := sy.resolve_left (by simp [isNan])
      rw [← kept, ← kept', roundSingle, roundSingle, ranks]

end Double

/-! ## Scalars -/

def Primitive.tag : Primitive → UInt8
  | .boolean => 1
  | .string => 2
  | .bytes => 3
  | .u32 => 4
  | .u64 => 5
  | .i32 => 6
  | .i64 => 7
  | .f32 => 8
  | .f64 => 9

theorem Primitive.tag_injective {p q : Primitive} (h : p.tag = q.tag) : p = q := by
  cases p <;> cases q <;> first | rfl | cases h

theorem Primitive.tag_lt (p : Primitive) : p.tag < 10 := by
  cases p <;> decide

def Primitive.width : Primitive → Nat
  | .u64 => 8
  | .i64 => 8
  | _ => 4

/-- No text and no bytes longer than eight bytes can count, and a float that is a number. -/
def Datum.IsMeasured : Datum → Prop
  | .text s => (Text.utf8 s).length < countBound
  | .bytes b => b.length < countBound
  | .float x => x.isNan = false
  | _ => True

namespace Value

theorem scalarBytes_integer {p : Primitive} {low high n : Int} (range : p.range? = some (low, high))
    (least : low ≤ n) (greatest : n ≤ high) : scalarBytes p (.integer n) =
      .ok (p.tag :: bigEndian p.width (n % ((1 <<< (8 * p.width) : Nat) : Int)).toNat) := by
  cases p <;> cases range <;> exact by rw [scalarBytes, integerBytes_of_mem least greatest]; rfl

/-- The integers of a type are less than the modulus of its bytes from each other. -/
theorem range_narrow {p : Primitive} {low high : Int} (range : p.range? = some (low, high)) :
    high - low < 256 ^ p.width := by
  cases p <;> cases range <;> decide

theorem scalarBytes_single {x : Double} {bits : Nat} (h : x.singleBits = some bits) :
    scalarBytes .f32 (.float x) = .ok (Primitive.f32.tag :: bigEndian 4 bits) := by
  have double : doubleOf (.float x) = .ok x := rfl
  rw [scalarBytes, double, ok_bind, h]
  rfl

theorem exists_scalarBytes {p : Primitive} {d : Datum} (h : IsScalar p d) :
    ∃ b, scalarBytes p d = .ok (p.tag :: b) := by
  cases h with
  | boolean | string | bytes | double => exact ⟨_, rfl⟩
  | single single =>
    obtain ⟨bits, eq⟩ := Double.exists_singleBits single
    exact ⟨_, scalarBytes_single eq⟩
  | integer range least greatest =>
    exact ⟨_, scalarBytes_integer range least greatest⟩

theorem separates_scalars {p : Primitive} {d e : Datum} {b c : Bytes} (hd : IsScalar p d)
    (he : IsScalar p e) (md : d.IsMeasured) (me : e.IsMeasured)
    (hb : scalarBytes p d = .ok (p.tag :: b)) (hc : scalarBytes p e = .ok (p.tag :: c)) :
    Separates b c (d = e) := by
  cases hd with
  | boolean x =>
    cases he with
    | boolean y =>
      cases hb
      cases hc
      exact .of_length rfl (by cases x <;> cases y <;> simp [Datum.isTrue])
    | integer range => cases range
  | string s =>
    cases he with
    | string t =>
      cases hb
      cases hc
      exact (separates_text md me).imp (congrArg _)
    | integer range => cases range
  | bytes x =>
    cases he with
    | bytes y =>
      cases hb
      cases hc
      exact (separates_counted md me).imp (congrArg _)
    | integer range => cases range
  | @single x sx =>
    cases he with
    | @single y sy =>
      obtain ⟨i, hi⟩ := Double.exists_singleBits sx
      obtain ⟨j, hj⟩ := Double.exists_singleBits sy
      rw [scalarBytes_single hi] at hb
      rw [scalarBytes_single hj] at hc
      cases hb
      cases hc
      exact (Double.separates_singleBits md me sx sy hi hj).imp (congrArg _)
    | integer range => cases range
  | double x =>
    cases he with
    | double y =>
      cases hb
      cases hc
      exact (Double.separates_toBits md me).imp (congrArg _)
    | integer range => cases range
  | @integer _ low high m range least greatest =>
    cases he with
    | @integer _ low' high' n range' least' greatest' =>
      cases range.symm.trans range'
      rw [scalarBytes_integer range least greatest] at hb
      rw [scalarBytes_integer range least' greatest'] at hc
      cases hb
      cases hc
      exact (separates_integer (range_narrow range) ⟨least, greatest⟩ ⟨least', greatest'⟩).imp
        (congrArg _)
    | _ => cases range

/-! ## Values -/

/-- A value that has a byte form: its scalars are in range, its keys are keys and its references bytes. -/
inductive Writable : Value → Prop
  | scalar {p : Primitive} {d : Datum} (h : IsScalar p d) : Writable (.scalar p d)
  | publicKey (k : Key) : Writable (.publicKey (.key k))
  | reference (id : Bytes) : Writable (.reference (.bytes id))
  | array {items : List Value} (each : ∀ v ∈ items, Writable v) : Writable (.array items)
  | struct {fields : List (String × Value)} (each : ∀ f ∈ fields, Writable f.2) :
      Writable (.struct fields)

/-- A value whose floats are numbers and whose texts, bytes, names, arrays and structs eight bytes can
count. -/
inductive IsMeasured : Value → Prop
  | scalar {p : Primitive} {d : Datum} (h : d.IsMeasured) : IsMeasured (.scalar p d)
  | publicKey (d : Datum) : IsMeasured (.publicKey d)
  | reference {d : Datum} (h : d.IsMeasured) : IsMeasured (.reference d)
  | array {items : List Value} (count : items.length < countBound)
      (each : ∀ v ∈ items, IsMeasured v) : IsMeasured (.array items)
  | struct {fields : List (String × Value)} (count : fields.length < countBound)
      (names : ∀ f ∈ fields, (Text.utf8 f.1).length < countBound)
      (each : ∀ f ∈ fields, IsMeasured f.2) : IsMeasured (.struct fields)

mutual
/-- Values of types have byte forms. -/
theorem writable_of_isOf : ∀ {v : Value} {type : Ty}, v.IsOf type → v.Writable
  | .scalar _ _, _, .scalar h => .scalar h
  | .publicKey _, _, .publicKey _ => .publicKey _
  | .reference _, _, .reference _ _ => .reference _
  | .array items, _, .array each => .array (writable_of_items items each)
  | .struct fields, _, .struct all => .struct (writable_of_fieldsOf fields all)

theorem writable_of_items {element : Ty} : ∀ (items : List Value), (∀ v ∈ items, v.IsOf element) →
    ∀ v ∈ items, v.Writable
  | [], _ => List.forall_mem_nil _
  | _ :: rest, each =>
    have each := List.forall_mem_cons.mp each
    List.forall_mem_cons.mpr ⟨writable_of_isOf each.1, writable_of_items rest each.2⟩

theorem writable_of_fieldsOf : ∀ (fields : List (String × Value)) {types : List (String × Ty)},
    FieldsOf types fields → ∀ f ∈ fields, f.2.Writable
  | [], _, .nil => List.forall_mem_nil _
  | (_, _) :: rest, _, .cons first others =>
    List.forall_mem_cons.mpr ⟨writable_of_isOf first, writable_of_fieldsOf rest others⟩
end

def tag : Value → UInt8
  | .scalar p _ => p.tag
  | .publicKey _ => 10
  | .reference _ => 11
  | .array _ => 12
  | .struct _ => 13

mutual
theorem exists_encode : ∀ {v : Value}, v.Writable → ∃ b, v.encode = .ok (v.tag :: b)
  | .scalar _ _, .scalar h => exists_scalarBytes h
  | .publicKey _, .publicKey _ => ⟨_, rfl⟩
  | .reference _, .reference _ => ⟨_, rfl⟩
  | .array items, .array each =>
    have ⟨_, hb⟩ := exists_encodeItems items each
    ⟨_, by rw [encode, hb]; rfl⟩
  | .struct fields, .struct each =>
    have ⟨_, hb⟩ := exists_encodeFields fields each
    ⟨_, by rw [encode, hb]; rfl⟩

theorem exists_encodeItems : ∀ (items : List Value), (∀ v ∈ items, v.Writable) →
    ∃ b, encodeItems items = .ok b
  | [], _ => ⟨[], rfl⟩
  | _ :: rest, each =>
    have each := List.forall_mem_cons.mp each
    have ⟨_, hb⟩ := exists_encode each.1
    have ⟨_, hc⟩ := exists_encodeItems rest each.2
    ⟨_, by rw [encodeItems, hb, hc]; rfl⟩

theorem exists_encodeFields : ∀ (fields : List (String × Value)), (∀ f ∈ fields, f.2.Writable) →
    ∃ b, encodeFields fields = .ok b
  | [], _ => ⟨[], rfl⟩
  | (_, _) :: rest, each =>
    have each := List.forall_mem_cons.mp each
    have ⟨_, hb⟩ := exists_encode each.1
    have ⟨_, hc⟩ := exists_encodeFields rest each.2
    ⟨_, by rw [encodeFields, hb, hc]; rfl⟩
end

theorem encode_array_eq_ok {items : List Value} {b : Bytes} (h : encode (.array items) = .ok b) :
    ∃ body, encodeItems items = .ok body ∧ b = 12 :: (bigEndian 8 items.length ++ body) := by
  rw [encode] at h
  obtain ⟨body, hb, h⟩ := bind_eq_ok.mp h
  cases h
  exact ⟨body, hb, rfl⟩

theorem encode_struct_eq_ok {fields : List (String × Value)} {b : Bytes}
    (h : encode (.struct fields) = .ok b) :
    ∃ body, encodeFields fields = .ok body ∧ b = 13 :: (bigEndian 8 fields.length ++ body) := by
  rw [encode] at h
  obtain ⟨body, hb, h⟩ := bind_eq_ok.mp h
  cases h
  exact ⟨body, hb, rfl⟩

theorem encodeItems_cons_eq_ok {v : Value} {rest : List Value} {b : Bytes}
    (h : encodeItems (v :: rest) = .ok b) :
    ∃ first others, v.encode = .ok first ∧ encodeItems rest = .ok others ∧ b = first ++ others := by
  rw [encodeItems] at h
  obtain ⟨first, hf, h⟩ := bind_eq_ok.mp h
  obtain ⟨others, ho, h⟩ := bind_eq_ok.mp h
  cases h
  exact ⟨first, others, hf, ho, rfl⟩

theorem encodeFields_cons_eq_ok {name : String} {v : Value} {rest : List (String × Value)} {b : Bytes}
    (h : encodeFields ((name, v) :: rest) = .ok b) :
    ∃ first others, v.encode = .ok first ∧ encodeFields rest = .ok others ∧
      b = counted (Text.utf8 name) ++ first ++ others := by
  rw [encodeFields] at h
  obtain ⟨first, hf, h⟩ := bind_eq_ok.mp h
  obtain ⟨others, ho, h⟩ := bind_eq_ok.mp h
  cases h
  exact ⟨first, others, hf, ho, rfl⟩

/-- Values of different kinds differ in the first byte. -/
theorem separates_of_tag_ne {v w : Value} {b c : Bytes} (hv : v.Writable) (hw : w.Writable)
    (hb : v.encode = .ok b) (hc : w.encode = .ok c) (h : v.tag ≠ w.tag) : Separates b c (v = w) := by
  obtain ⟨_, eq⟩ := exists_encode hv
  obtain ⟨_, eq'⟩ := exists_encode hw
  cases hb.symm.trans eq
  cases hc.symm.trans eq'
  exact .tagged fun same => absurd same h

/-- Scalars are told from all other values. -/
theorem tag_ne_scalar {v : Value} (p : Primitive) (d : Datum) (h : 10 ≤ v.tag) :
    v.tag ≠ (scalar p d).tag := by
  intro same
  rw [same] at h
  exact absurd p.tag_lt (UInt8.not_lt.mpr h)

mutual
/-- The byte forms of different values stay apart. -/
theorem encode_separates : ∀ (v w : Value) {b c : Bytes}, v.Writable → w.Writable → v.IsMeasured →
    w.IsMeasured → v.encode = .ok b → w.encode = .ok c → Separates b c (v = w)
  | .scalar p d, w, b, c, hv, hw, mv, mw, hb, hc => by
    cases w with
    | scalar q e =>
      by_cases same : p = q
      · subst same
        cases hv with
        | scalar hd =>
        cases hw with
        | scalar he =>
        cases mv with
        | scalar md =>
        cases mw with
        | scalar me =>
        obtain ⟨x, hx⟩ := exists_scalarBytes hd
        obtain ⟨y, hy⟩ := exists_scalarBytes he
        cases hb.symm.trans hx
        cases hc.symm.trans hy
        exact .tagged fun _ => (separates_scalars hd he md me hx hy).imp (congrArg _)
      · exact separates_of_tag_ne hv hw hb hc fun h => same (Primitive.tag_injective h)
    | _ => exact separates_of_tag_ne hv hw hb hc (tag_ne_scalar p d (by simp [tag])).symm
  | .publicKey d, w, b, c, hv, hw, mv, mw, hb, hc => by
    cases w with
    | publicKey e =>
      cases hv with
      | publicKey k =>
      cases hw with
      | publicKey l =>
      cases hb
      cases hc
      exact .tagged fun _ => (Key.separates_coordinates k l).imp (congrArg fun k => publicKey (.key k))
    | scalar q e => exact separates_of_tag_ne hv hw hb hc (tag_ne_scalar q e (by simp [tag]))
    | _ => exact separates_of_tag_ne hv hw hb hc (by simp [tag])
  | .reference d, w, b, c, hv, hw, mv, mw, hb, hc => by
    cases w with
    | reference e =>
      cases hv with
      | reference i =>
      cases hw with
      | reference j =>
      cases mv with
      | reference mi =>
      cases mw with
      | reference mj =>
      cases hb
      cases hc
      exact .tagged fun _ => (separates_counted mi mj).imp (congrArg fun i => reference (.bytes i))
    | scalar q e => exact separates_of_tag_ne hv hw hb hc (tag_ne_scalar q e (by simp [tag]))
    | _ => exact separates_of_tag_ne hv hw hb hc (by simp [tag])
  | .array items, w, b, c, hv, hw, mv, mw, hb, hc => by
    cases w with
    | array items' =>
      cases hv with
      | array each =>
      cases hw with
      | array each' =>
      cases mv with
      | array count measured =>
      cases mw with
      | array count' measured' =>
      obtain ⟨x, hx, rfl⟩ := encode_array_eq_ok hb
      obtain ⟨y, hy, rfl⟩ := encode_array_eq_ok hc
      refine .tagged fun _ => ((separates_bigEndian count count').append fun length => ?_).imp
        fun same => congrArg array same.2
      exact encodeItems_separates items items' length each each' measured measured' hx hy
    | scalar q e => exact separates_of_tag_ne hv hw hb hc (tag_ne_scalar q e (by simp [tag]))
    | _ => exact separates_of_tag_ne hv hw hb hc (by simp [tag])
  | .struct fields, w, b, c, hv, hw, mv, mw, hb, hc => by
    cases w with
    | struct fields' =>
      cases hv with
      | struct each =>
      cases hw with
      | struct each' =>
      cases mv with
      | struct count names measured =>
      cases mw with
      | struct count' names' measured' =>
      obtain ⟨x, hx, rfl⟩ := encode_struct_eq_ok hb
      obtain ⟨y, hy, rfl⟩ := encode_struct_eq_ok hc
      refine .tagged fun _ => ((separates_bigEndian count count').append fun length => ?_).imp
        fun same => congrArg struct same.2
      exact encodeFields_separates fields fields' length each each' names names' measured measured' hx hy
    | scalar q e => exact separates_of_tag_ne hv hw hb hc (tag_ne_scalar q e (by simp [tag]))
    | _ => exact separates_of_tag_ne hv hw hb hc (by simp [tag])

theorem encodeItems_separates : ∀ (items items' : List Value) {b c : Bytes},
    items.length = items'.length → (∀ v ∈ items, v.Writable) → (∀ v ∈ items', v.Writable) →
    (∀ v ∈ items, v.IsMeasured) → (∀ v ∈ items', v.IsMeasured) →
    encodeItems items = .ok b → encodeItems items' = .ok c → Separates b c (items = items')
  | [], [], _, _, _, _, _, _, _, hb, hc => by
    cases hb
    cases hc
    exact .of_length rfl fun _ => rfl
  | v :: rest, w :: rest', b, c, length, hv, hw, mv, mw, hb, hc => by
    rw [List.forall_mem_cons] at hv hw mv mw
    obtain ⟨x, xs, hx, hxs, rfl⟩ := encodeItems_cons_eq_ok hb
    obtain ⟨y, ys, hy, hys, rfl⟩ := encodeItems_cons_eq_ok hc
    have first := encode_separates v w hv.1 hw.1 mv.1 mw.1 hx hy
    have others := encodeItems_separates rest rest' (Nat.succ.inj length) hv.2 hw.2 mv.2 mw.2 hxs hys
    exact (first.append fun _ => others).imp fun same => by rw [same.1, same.2]

theorem encodeFields_separates : ∀ (fields fields' : List (String × Value)) {b c : Bytes},
    fields.length = fields'.length → (∀ f ∈ fields, f.2.Writable) → (∀ f ∈ fields', f.2.Writable) →
    (∀ f ∈ fields, (Text.utf8 f.1).length < countBound) →
    (∀ f ∈ fields', (Text.utf8 f.1).length < countBound) →
    (∀ f ∈ fields, f.2.IsMeasured) → (∀ f ∈ fields', f.2.IsMeasured) →
    encodeFields fields = .ok b → encodeFields fields' = .ok c → Separates b c (fields = fields')
  | [], [], _, _, _, _, _, _, _, _, _, hb, hc => by
    cases hb
    cases hc
    exact .of_length rfl fun _ => rfl
  | (name, v) :: rest, (name', w) :: rest', b, c, length, hv, hw, nv, nw, mv, mw, hb, hc => by
    rw [List.forall_mem_cons] at hv hw nv nw mv mw
    obtain ⟨x, xs, hx, hxs, rfl⟩ := encodeFields_cons_eq_ok hb
    obtain ⟨y, ys, hy, hys, rfl⟩ := encodeFields_cons_eq_ok hc
    have names := separates_text nv.1 nw.1
    have first := encode_separates v w hv.1 hw.1 mv.1 mw.1 hx hy
    have others := encodeFields_separates rest rest' (Nat.succ.inj length) hv.2 hw.2 nv.2 nw.2 mv.2 mw.2
      hxs hys
    refine ((names.append fun _ => first).append fun _ => others).imp fun same => ?_
    rw [same.2, Prod.ext same.1.1 same.1.2]
end

/-! ## Messages -/

/-- What is hashed for a field of a record. -/
def fieldMessage (contract field : String) (salt : Int) (v : Value) : Except Misuse Bytes := do
  let salt ← integerBytes 8 0 0xffffffffffffffff (.integer salt)
  let encoded ← v.encode
  return fieldDomain ++ (counted (Text.utf8 contract) ++ (counted (Text.utf8 field) ++ (salt ++ encoded)))

/-- What is hashed for a value alone. -/
def valueMessage (v : Value) : Except Misuse Bytes := do
  return valueDomain ++ (← v.encode)

theorem commitField_eq (contract field : String) (salt : Int) (v : Value) :
    commitField contract field salt v = wordsOf <$> fieldMessage contract field salt v := by
  cases hs : integerBytes 8 0 0xffffffffffffffff (.integer salt) with
  | error e => simp only [commitField, fieldMessage, hs]; rfl
  | ok salt =>
    cases he : v.encode with
    | error e => simp only [commitField, fieldMessage, hs, he]; rfl
    | ok encoded =>
      simp only [commitField, fieldMessage, hs, he, ok_bind, List.append_assoc]
      rfl

theorem commit_eq (v : Value) : v.commit = wordsOf <$> valueMessage v := by
  cases he : v.encode with
  | error e => simp only [commit, valueMessage, he]; rfl
  | ok encoded => simp only [commit, valueMessage, he]; rfl

theorem fieldMessage_eq_ok {contract field : String} {salt : Int} {v : Value} {m : Bytes}
    (h : fieldMessage contract field salt v = .ok m) : ∃ s encoded,
      integerBytes 8 0 0xffffffffffffffff (.integer salt) = .ok s ∧ v.encode = .ok encoded ∧
      m = fieldDomain ++
        (counted (Text.utf8 contract) ++ (counted (Text.utf8 field) ++ (s ++ encoded))) := by
  obtain ⟨s, hs, h⟩ := bind_eq_ok.mp h
  obtain ⟨encoded, he, h⟩ := bind_eq_ok.mp h
  cases h
  exact ⟨s, encoded, hs, he, rfl⟩

/-- The two kinds of messages begin differently. -/
theorem domains_differ (s t : Bytes) : fieldDomain ++ s ≠ valueDomain ++ t := by
  intro same
  have begins : fieldDomain = valueDomain := (List.append_inj same (by decide +kernel)).1
  exact absurd begins (by decide +kernel)

theorem exists_fieldMessage (contract field : String) {salt : Int} {v : Value} (hv : v.Writable)
    (hs : 0 ≤ salt ∧ salt ≤ 0xffffffffffffffff) : ∃ m, fieldMessage contract field salt v = .ok m := by
  obtain ⟨encoded, he⟩ := exists_encode hv
  have written : integerBytes 8 0 0xffffffffffffffff (.integer salt) = _ := integerBytes_of_mem hs.1 hs.2
  exact ⟨_, by rw [fieldMessage, written, he]; rfl⟩

theorem exists_valueMessage {v : Value} (hv : v.Writable) : ∃ m, valueMessage v = .ok m := by
  obtain ⟨encoded, he⟩ := exists_encode hv
  exact ⟨_, by rw [valueMessage, he]; rfl⟩

/-- The message for a field determines the record's name, the field's, the salt and the value. -/
theorem fieldMessage_determines {contract field contract' field' : String} {salt salt' : Int}
    {v w : Value} {m : Bytes} (hv : v.Writable) (hw : w.Writable) (mv : v.IsMeasured)
    (mw : w.IsMeasured)
    (names : ∀ name ∈ [contract, field, contract', field'], (Text.utf8 name).length < countBound)
    (hs : 0 ≤ salt ∧ salt ≤ 0xffffffffffffffff) (hs' : 0 ≤ salt' ∧ salt' ≤ 0xffffffffffffffff)
    (h : fieldMessage contract field salt v = .ok m)
    (h' : fieldMessage contract' field' salt' w = .ok m) :
    contract = contract' ∧ field = field' ∧ salt = salt' ∧ v = w := by
  simp only [List.forall_mem_cons] at names
  obtain ⟨nc, nf, nc', nf', -⟩ := names
  obtain ⟨s, b, es, hb, rfl⟩ := fieldMessage_eq_ok h
  obtain ⟨t, c, et, hc, same⟩ := fieldMessage_eq_ok h'
  rw [integerBytes_of_mem hs.1 hs.2] at es
  rw [integerBytes_of_mem hs'.1 hs'.2] at et
  cases es
  cases et
  have salts : Separates _ _ (salt = salt') := @separates_integer 8 _ _ _ _ (by decide) hs hs'
  have apart := (separates_text nc nc').append fun _ => (separates_text nf nf').append fun _ =>
    salts.append fun _ => encode_separates v w hv hw mv mw hb hc
  exact apart.of_eq (List.append_cancel_left same)

/-- The byte form of values can be decoded in one way only, whatever stands after it. Therefore what
is hashed for a field determines all that the field is committed with, and is never what is hashed for
a value alone. -/
theorem commitments_bind {v w : Value} (hv : v.Writable) (hw : w.Writable) (mv : v.IsMeasured)
    (mw : w.IsMeasured) {contract field contract' field' : String} {salt salt' : Int}
    (names : ∀ name ∈ [contract, field, contract', field'], (Text.utf8 name).length < countBound)
    (hs : 0 ≤ salt ∧ salt ≤ 0xffffffffffffffff) (hs' : 0 ≤ salt' ∧ salt' ≤ 0xffffffffffffffff) :
    (∃ b c, v.encode = .ok b ∧ w.encode = .ok c ∧ ∀ s t, b ++ s = c ++ t → v = w ∧ s = t) ∧
    ∃ m m' n, commitField contract field salt v = .ok (wordsOf m) ∧
      fieldMessage contract field salt v = .ok m ∧ fieldMessage contract' field' salt' w = .ok m' ∧
      w.commit = .ok (wordsOf n) ∧ valueMessage w = .ok n ∧
      (m = m' → contract = contract' ∧ field = field' ∧ salt = salt' ∧ v = w) ∧ m ≠ n := by
  obtain ⟨b, hb⟩ := exists_encode hv
  obtain ⟨c, hc⟩ := exists_encode hw
  obtain ⟨m, hm⟩ := exists_fieldMessage contract field hv hs
  obtain ⟨m', hm'⟩ := exists_fieldMessage contract' field' hw hs'
  obtain ⟨n, hn⟩ := exists_valueMessage hw
  refine ⟨⟨_, _, hb, hc, encode_separates v w hv hw mv mw hb hc⟩, m, m', n, ?_, hm, hm', ?_, hn, ?_, ?_⟩
  · rw [commitField_eq, hm]
    rfl
  · rw [commit_eq, hn]
    rfl
  · rintro rfl
    exact fieldMessage_determines hv hw mv mw names hs hs' hm hm'
  · obtain ⟨_, _, -, -, rfl⟩ := fieldMessage_eq_ok hm
    obtain ⟨_, -, hn⟩ := bind_eq_ok.mp hn
    cases hn
    exact domains_differ _ _

/-- A debt in single precision with its creditors. -/
def debt (creditors : List Key) : Value :=
  .struct [("amount", .scalar .f32 (.float (.zero true))),
    ("creditors", .array (creditors.map fun k => .publicKey (.key k)))]

theorem debt_writable (creditors : List Key) : (debt creditors).Writable := by
  have keys : (array (creditors.map fun k => publicKey (.key k))).Writable := by
    refine .array (List.forall_mem_map.mpr fun k _ => ?_)
    exact .publicKey k
  exact .struct (List.forall_mem_cons.mpr ⟨.scalar (.single (.inr rfl)), List.forall_mem_singleton.mpr keys⟩)

theorem debt_measured {creditors : List Key} (short : creditors.length < countBound) :
    (debt creditors).IsMeasured := by
  have names : ∀ name ∈ ["amount", "creditors"], (Text.utf8 name).length < countBound := by
    decide +kernel
  have keys : (array (creditors.map fun k => publicKey (.key k))).IsMeasured := by
    refine .array (by rwa [List.length_map]) (List.forall_mem_map.mpr fun k _ => ?_)
    exact .publicKey _
  refine .struct (show 2 < countBound by decide) (fun f hf => names f.1 (List.mem_map_of_mem hf)) ?_
  exact List.forall_mem_cons.mpr ⟨.scalar rfl, List.forall_mem_singleton.mpr keys⟩

/-- A creditor more makes another message, also where the names run together to one text. -/
theorem debt_commitments_bind : ((debt [Key.null]).Writable ∧ (debt []).IsMeasured) ∧
    ∃ m m' n, commitField "Note" "debt" 7 (debt [Key.null]) = .ok (wordsOf m) ∧
      fieldMessage "Noted" "ebt" 7 (debt []) = .ok m' ∧ (debt []).commit = .ok (wordsOf n) ∧
      m ≠ m' ∧ m ≠ n := by
  have names : ∀ name ∈ ["Note", "debt", "Noted", "ebt"], (Text.utf8 name).length < countBound := by
    decide +kernel
  have salt : (0 : Int) ≤ 7 ∧ (7 : Int) ≤ 0xffffffffffffffff := by decide
  obtain ⟨-, m, m', n, hm, -, hm', hn, -, binds, apart⟩ := commitments_bind (debt_writable [Key.null])
    (debt_writable []) (debt_measured (by decide)) (debt_measured (by decide)) names salt salt
  refine ⟨⟨debt_writable _, debt_measured (by decide)⟩, m, m', n, hm, hm', hn, fun same => ?_, apart⟩
  exact absurd (binds same).1 (by decide)

end Value

end Covenant
