import Covenant.Proofs.Except
import Covenant.Proofs.Key.Codec
import Covenant.Proofs.Lists
import Covenant.Proofs.Number.Rounding
import Covenant.Value.Json
/-!
What is read for a type is a value of this type.

* `Value.IsOf`, `Value.FieldsOf`: a value of a type, and values of all fields of a record;
* `Value.isOf_default`: the value of a field that nothing is known about is one of its type;
* `Value.isOf_of_ofJson`: what JSON data give for a type is one of it.
-/

namespace Covenant

/-- A scalar of a primitive type: of its kind, an integer in its range, a double as precise as it may
be. -/
inductive IsScalar : Primitive → Datum → Prop
  | boolean (b : Bool) : IsScalar .boolean (.boolean b)
  | string (s : String) : IsScalar .string (.text s)
  | bytes (b : Bytes) : IsScalar .bytes (.bytes b)
  | single {x : Double} (h : x.IsSingle) : IsScalar .f32 (.float x)
  | double (x : Double) : IsScalar .f64 (.float x)
  | integer {p : Primitive} {low high n : Int} (range : p.range? = some (low, high))
      (least : low ≤ n) (greatest : n ≤ high) : IsScalar p (.integer n)

namespace Value

mutual
inductive IsOf : Ty → Value → Prop
  | scalar {p : Primitive} {d : Datum} (h : IsScalar p d) : IsOf (.primitive p) (.scalar p d)
  | publicKey {k : Key} (h : k.IsValid) : IsOf .publicKey (.publicKey (.key k))
  | reference (contract id : String) :
      IsOf (.reference contract) (.reference (.bytes (Text.utf8 id)))
  | array {element : Ty} {items : List Value} (each : ∀ v ∈ items, IsOf element v) :
      IsOf (.array element) (.array items)
  | struct {name : String} {types : List (String × Ty)} {fields : List (String × Value)}
      (all : FieldsOf types fields) : IsOf (.struct name types) (.struct fields)

inductive FieldsOf : List (String × Ty) → List (String × Value) → Prop
  | nil : FieldsOf [] []
  | cons {name : String} {type : Ty} {v : Value} {types : List (String × Ty)}
      {fields : List (String × Value)} (first : IsOf type v) (rest : FieldsOf types fields) :
      FieldsOf ((name, type) :: types) ((name, v) :: fields)
end

/-! ## Fields -/

theorem FieldsOf.names {types : List (String × Ty)} {fields : List (String × Value)} :
    FieldsOf types fields → fields.map Prod.fst = types.map Prod.fst
  | .nil => rfl
  | .cons _ rest => congrArg (_ :: ·) rest.names

theorem FieldsOf.lookup {name : String} {type : Ty} {types : List (String × Ty)}
    {fields : List (String × Value)} : FieldsOf types fields → types.lookup name = some type →
      ∃ v, fields.lookup name = some v ∧ v.IsOf type
  | .nil, h => nomatch h
  | @FieldsOf.cons other t v types fields first rest, h => by
    rw [List.lookup_cons] at h ⊢
    cases same : name == other with
    | true =>
      simp only [same, Option.some.injEq] at h
      exact ⟨v, rfl, h ▸ first⟩
    | false =>
      simp only [same] at h
      exact rest.lookup h

theorem FieldsOf.of_map {value : String × Ty → Value} {types : List (String × Ty)}
    (each : ∀ p ∈ types, (value p).IsOf p.2) : FieldsOf types (types.map fun p => (p.1, value p)) := by
  induction types with
  | nil => exact .nil
  | cons p rest ih =>
    rw [List.forall_mem_cons] at each
    exact .cons each.1 (ih each.2)

/-- Only public keys hold keys. -/
theorem IsOf.eq_publicKey {type : Ty} {v : Value} {k : Key} (h : v.IsOf type)
    (same : v.toDatum = .key k) : v = .publicKey (.key k) := by
  cases h with
  | scalar h =>
    rw [toDatum] at same
    subst same
    cases h
  | publicKey _ =>
    rw [toDatum] at same
    rw [same]
  | reference | array | struct => cases same

theorem IsOf.exists_reference {contract : String} {v : Value} (h : v.IsOf (.reference contract)) :
    ∃ id, v = .reference (.bytes id) := by
  cases h
  exact ⟨_, rfl⟩

/-! ## Defaults -/

theorem isScalar_default (p : Primitive) : IsScalar p (defaultScalar p) := by
  cases p <;> first
    | exact .boolean _
    | exact .string _
    | exact .bytes _
    | exact .single (.inr rfl)
    | exact .double _
    | exact .integer rfl (by decide) (by decide)

mutual
theorem isOf_default : ∀ type : Ty, (default type).IsOf type
  | .primitive p => .scalar (isScalar_default p)
  | .publicKey => .publicKey (.inl rfl)
  | .reference contract => .reference contract ""
  | .array _ => .array (by simp)
  | .struct _ types => .struct (fieldsOf_default types)

theorem fieldsOf_default : ∀ types : List (String × Ty), FieldsOf types (defaultFields types)
  | [] => .nil
  | (_, type) :: rest => .cons (isOf_default type) (fieldsOf_default rest)
end

/-! ## Reading -/

theorem isSingle_of_readFloat {path : String} {d : Datum} {x : Double}
    (h : readFloat .f32 path d = .ok x) : x.IsSingle := by
  unfold readFloat at h
  simp only [if_true] at h
  split at h
  · cases h
    exact Double.isSingle_roundSingle _ _
  · split at h
    · cases h
      exact Double.isSingle_roundSingle _ _
    · cases h
  · cases h

theorem isScalar_of_readScalar {p : Primitive} {path : String} {d r : Datum}
    (h : readScalar p path d = .ok r) : IsScalar p r := by
  have integers : ∀ low high, p.range? = some (low, high) → (do
      let i ← readInteger p path d
      if low ≤ i ∧ i ≤ high then return Datum.integer i else refuseRange p path i) = .ok r →
        IsScalar p r := by
    intro low high range h
    obtain ⟨i, -, h⟩ := bind_eq_ok.mp h
    split at h
    next inside =>
      cases h
      exact .integer range inside.1 inside.2
    next =>
      unfold refuseRange at h
      split at h <;> cases h
  cases p with
  | boolean =>
    cases d with
    | boolean b =>
      cases h
      exact .boolean b
    | _ => cases h
  | string =>
    cases d with
    | text s =>
      cases h
      exact .string s
    | _ => cases h
  | bytes =>
    cases d with
    | text s =>
      rw [readScalar] at h
      split at h
      · cases h
        exact .bytes _
      · cases h
    | _ => cases h
  | f32 =>
    obtain ⟨x, hx, h⟩ := bind_eq_ok.mp h
    cases h
    exact .single (isSingle_of_readFloat hx)
  | f64 =>
    obtain ⟨x, -, h⟩ := bind_eq_ok.mp h
    cases h
    exact .double x
  | u32 | u64 | i32 | i64 => exact integers _ _ rfl h

theorem isOf_of_readItems {element : Ty} {f : String → Datum → Except CallFault Value}
    (each : ∀ path d v, f path d = .ok v → v.IsOf element) {path : String} {i : Nat}
    {data : List Datum} {items : List Value} (h : readItems f path i data = .ok items) :
    ∀ v ∈ items, v.IsOf element := by
  induction data generalizing i items with
  | nil =>
    cases h
    intro v hv
    cases hv
  | cons d rest ih =>
    obtain ⟨v, hv, h⟩ := bind_eq_ok.mp h
    obtain ⟨others, ho, h⟩ := bind_eq_ok.mp h
    cases h
    exact List.forall_mem_cons.mpr ⟨each _ _ v hv, ih ho⟩

/-- A key is read from null and from what writes one. -/
theorem ofJson_publicKey_eq_ok {path : String} {d : Datum} {v : Value}
    (h : ofJson path .publicKey d = .ok v) : (d = .null ∧ v = .publicKey (.key Key.null)) ∨
      ∃ key, Key.ofDatum d = .ok key ∧ v = .publicKey (.key key) := by
  unfold ofJson at h
  split at h
  · cases h
    exact .inl ⟨rfl, rfl⟩
  · split at h
    next key read =>
      cases h
      exact .inr ⟨key, read, rfl⟩
    next => cases h
    next => cases h

mutual
theorem isOf_of_ofJson : ∀ (type : Ty) {path : String} {d : Datum} {v : Value},
    ofJson path type d = .ok v → v.IsOf type
  | .primitive p, path, d, v, h => by
    obtain ⟨r, hr, h⟩ := bind_eq_ok.mp h
    cases h
    exact .scalar (isScalar_of_readScalar hr)
  | .publicKey, path, d, v, h => by
    rcases ofJson_publicKey_eq_ok h with ⟨rfl, rfl⟩ | ⟨key, read, rfl⟩
    · exact .publicKey (.inl rfl)
    · exact .publicKey (.inr (Key.isPoint_of_ofDatum read))
  | .reference contract, path, d, v, h => by
    rw [ofJson] at h
    split at h
    · cases h
      exact .reference contract _
    · cases h
  | .array element, path, d, v, h => by
    unfold ofJson at h
    split at h
    · obtain ⟨items, hi, h⟩ := bind_eq_ok.mp h
      cases h
      exact .array (isOf_of_readItems (fun _ _ _ h => isOf_of_ofJson element h) hi)
    · cases h
  | .struct name types, path, d, v, h => by
    obtain ⟨fields, -, h⟩ := bind_eq_ok.mp h
    obtain ⟨values, hv, h⟩ := bind_eq_ok.mp h
    cases h
    exact .struct (fieldsOf_of_ofJsonFields types hv)

theorem fieldsOf_of_ofJsonFields : ∀ (types : List (String × Ty)) {path : String} {data : Fields}
    {fields : List (String × Value)}, ofJsonFields path types data = .ok fields →
      FieldsOf types fields
  | [], _, _, fields, h => by
    cases h
    exact .nil
  | (name, type) :: rest, path, data, fields, h => by
    rw [ofJsonFields] at h
    split at h
    · cases h
    · obtain ⟨v, hv, h⟩ := bind_eq_ok.mp h
      obtain ⟨others, ho, h⟩ := bind_eq_ok.mp h
      cases h
      exact .cons (isOf_of_ofJson type hv) (fieldsOf_of_ofJsonFields rest ho)
end

end Value

end Covenant
