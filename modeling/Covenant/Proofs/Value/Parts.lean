import Covenant.Proofs.Datum.Each
import Covenant.Proofs.Run.Inputs
import Covenant.Proofs.Value.Reading
/-!
What is read for a type has the properties of the data that it is read from.

* `Value.Kept`: a property of data that the reading of a scalar keeps;
* `Value.each_of_ofJson`: such a property of all parts of a datum is one of all parts of the value.
-/

namespace Covenant.Value

/-- A property that scalars keep when they are read, and that keys, ids and defaults have. -/
structure Kept (P : Datum → Prop) : Prop where
  scalar : ∀ {p : Primitive} {path : String} {d r : Datum}, d.Each P →
    readScalar p path d = .ok r → P r
  key : ∀ k, P (.key k)
  bytes : ∀ b, P (.bytes b)
  default : ∀ p, P (defaultScalar p)

variable {P : Datum → Prop}

theorem IsScalar.isAtom {p : Primitive} {d : Datum} (h : IsScalar p d) : d.isAtom = true := by
  cases h <;> rfl

theorem each_struct {fields : List (String × Value)} (each : ∀ f ∈ fields, f.2.toDatum.Each P) :
    (Datum.record (ofMembers (fieldData fields))).Each P := by
  refine Datum.each_ofMembers fun m hm => ?_
  rw [fieldData_eq_map] at hm
  obtain ⟨f, hf, rfl⟩ := List.mem_map.mp hm
  exact each f hf

theorem each_of_readItems {f : String → Datum → Except CallFault Value}
    (reads : ∀ {path d v}, d.Each P → f path d = .ok v → v.toDatum.Each P) {path : String} {i : Nat}
    {data : List Datum} {items : List Value} (each : ∀ d ∈ data, d.Each P)
    (h : readItems f path i data = .ok items) : ∀ d ∈ itemData items, d.Each P := by
  induction data generalizing i items with
  | nil =>
    cases h
    exact List.forall_mem_nil _
  | cons d rest ih =>
    obtain ⟨v, hv, h⟩ := bind_eq_ok.mp h
    obtain ⟨others, ho, h⟩ := bind_eq_ok.mp h
    cases h
    rw [List.forall_mem_cons] at each
    exact List.forall_mem_cons.mpr ⟨reads each.1 hv, ih each.2 ho⟩

theorem each_of_membersOf {path record : String} {types : List (String × Ty)} {d : Datum}
    {fields : Fields} (each : d.Each P) (h : membersOf path record types d = .ok fields) :
    ∀ m ∈ fields, m.2.Each P := by
  unfold membersOf at h
  split at h
  · split at h
    · cases h
    · cases h
      exact Datum.each_record.mp each
  · cases h

mutual
/-- A property of all parts of a datum is one of all parts of the value that is read from it. -/
theorem each_of_ofJson (kept : Kept P) : ∀ (type : Ty) {path : String} {d : Datum} {v : Value},
    d.Each P → ofJson path type d = .ok v → v.toDatum.Each P
  | .primitive p, path, d, v, each, h => by
    obtain ⟨r, hr, h⟩ := bind_eq_ok.mp h
    cases h
    exact .atom (IsScalar.isAtom (isScalar_of_readScalar hr)) (kept.scalar each hr)
  | .publicKey, path, d, v, each, h => by
    rcases ofJson_publicKey_eq_ok h with ⟨rfl, rfl⟩ | ⟨key, -, rfl⟩
    · exact .atom rfl (kept.key Key.null)
    · exact .atom rfl (kept.key key)
  | .reference contract, path, d, v, each, h => by
    rw [ofJson] at h
    split at h
    · cases h
      exact .atom rfl (kept.bytes _)
    · cases h
  | .array element, path, d, v, each, h => by
    unfold ofJson at h
    split at h
    · obtain ⟨items, hi, h⟩ := bind_eq_ok.mp h
      cases h
      exact .list (each_of_readItems (each_of_ofJson kept element) (Datum.each_list.mp each) hi)
    · cases h
  | .struct name types, path, d, v, each, h => by
    obtain ⟨fields, hf, h⟩ := bind_eq_ok.mp h
    obtain ⟨values, hv, h⟩ := bind_eq_ok.mp h
    cases h
    exact each_struct (each_of_ofJsonFields kept types (each_of_membersOf each hf) hv)

theorem each_of_ofJsonFields (kept : Kept P) : ∀ (types : List (String × Ty)) {path : String}
    {data : Fields} {fields : List (String × Value)}, (∀ m ∈ data, m.2.Each P) →
      ofJsonFields path types data = .ok fields → ∀ f ∈ fields, f.2.toDatum.Each P
  | [], _, _, fields, _, h => by
    cases h
    exact List.forall_mem_nil _
  | (name, type) :: rest, path, data, fields, each, h => by
    rw [ofJsonFields] at h
    split at h
    · cases h
    · next d found =>
      obtain ⟨v, hv, h⟩ := bind_eq_ok.mp h
      obtain ⟨others, ho, h⟩ := bind_eq_ok.mp h
      cases h
      exact List.forall_mem_cons.mpr ⟨each_of_ofJson kept type (each _ (mem_of_lookup found)) hv,
        each_of_ofJsonFields kept rest each ho⟩
end

mutual
theorem each_default (kept : Kept P) : ∀ type : Ty, (default type).toDatum.Each P
  | .primitive p => .atom (IsScalar.isAtom (isScalar_default p)) (kept.default p)
  | .publicKey => .atom rfl (kept.key Key.null)
  | .reference _ => .atom rfl (kept.bytes [])
  | .array _ => .list (List.forall_mem_nil _)
  | .struct _ fields => each_struct (each_defaultFields kept fields)

theorem each_defaultFields (kept : Kept P) : ∀ types : List (String × Ty),
    ∀ f ∈ defaultFields types, f.2.toDatum.Each P
  | [] => List.forall_mem_nil _
  | (_, type) :: rest => List.forall_mem_cons.mpr ⟨each_default kept type, each_defaultFields kept rest⟩
end

end Covenant.Value
