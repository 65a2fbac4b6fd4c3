import Covenant.Proofs.Run.Records
import Covenant.Proofs.Value.Conformance
import Covenant.Proofs.Value.Encoding
/-!
What a run yields of the receiver that it has left.

* `Value.IsOf.ofDatum_toDatum`: the value of a type that a datum was made of is made of it again, if its
  structs name their fields differently (`Value.Distinct`);
* `LinkedFunction.exists_output`: a run can commit to each field that the outcome depends on, and yields its
  receiver and its result.
-/

namespace Covenant

namespace Value

theorem ofItems_itemData {element : Ty} {items : List Value}
    (each : ∀ v ∈ items, ofDatum element v.toDatum = .ok v) :
    ofItems (ofDatum element) (itemData items) = .ok items := by
  induction items with
  | nil => rfl
  | cons v rest ih =>
    rw [List.forall_mem_cons] at each
    rw [itemData, ofItems, each.1, ok_bind, ih each.2]
    rfl

/-- Values in which every struct has different names for its fields. -/
inductive Distinct : Value → Prop
  | scalar (p : Primitive) (d : Datum) : Distinct (.scalar p d)
  | publicKey (d : Datum) : Distinct (.publicKey d)
  | reference (d : Datum) : Distinct (.reference d)
  | array {items : List Value} (each : ∀ v ∈ items, v.Distinct) : Distinct (.array items)
  | struct {fields : List (String × Value)} (nodup : (fields.map Prod.fst).Nodup)
      (parts : ∀ f ∈ fields, f.2.Distinct) : Distinct (.struct fields)

mutual
/-- Values of a type whose structs have different names for their fields have so themselves. -/
theorem IsOf.distinct : ∀ {type : Ty} {v : Value}, v.IsOf type → type.Distinct → v.Distinct
  | _, _, .scalar _, _ => .scalar _ _
  | _, _, .publicKey _, _ => .publicKey _
  | _, _, .reference _ _, _ => .reference _
  | _, _, .array each, .array distinct => .array fun v hv => (each v hv).distinct distinct
  | _, _, .struct all, .struct nodup parts =>
    .struct (all.names ▸ nodup) (all.distinct parts)

theorem FieldsOf.distinct : ∀ {types : List (String × Ty)} {fields : List (String × Value)},
    FieldsOf types fields → (∀ f ∈ types, f.2.Distinct) → ∀ f ∈ fields, f.2.Distinct
  | _, _, .nil, _ => List.forall_mem_nil _
  | _, _, .cons first rest, distinct => by
    rw [List.forall_mem_cons] at distinct ⊢
    exact ⟨first.distinct distinct.1, rest.distinct distinct.2⟩
end

mutual
/-- A value of a type is made again of its datum. -/
theorem IsOf.ofDatum_toDatum : ∀ {type : Ty} {v : Value}, v.IsOf type → v.Distinct →
    ofDatum type v.toDatum = .ok v
  | _, _, .scalar _, _ => rfl
  | _, _, .publicKey _, _ => rfl
  | _, _, .reference _ _, _ => rfl
  | _, _, @IsOf.array element items each, .array distinct => by
    rw [toDatum, ofDatum, Datum.parts, ok_bind,
      ofItems_itemData fun v hv => (each v hv).ofDatum_toDatum (distinct v hv)]
    rfl
  | _, _, @IsOf.struct name types fields all, .struct nodup parts => by
    have names : ((fieldData fields).map Prod.fst).Nodup := by
      rw [all.data_names, ← all.names]
      exact nodup
    rw [toDatum, ofMembers_of_nodup names, ofDatum,
      all.ofFields_fieldData parts _ fun f hf => lookup_of_mem names hf]
    rfl

theorem FieldsOf.ofFields_fieldData : ∀ {types : List (String × Ty)} {fields : List (String × Value)},
    FieldsOf types fields → (∀ f ∈ fields, f.2.Distinct) → ∀ all : Fields,
      (∀ f ∈ fieldData fields, all.lookup f.1 = some f.2) → ofFields types (.record all) = .ok fields
  | _, _, .nil, _, _, _ => rfl
  | _, _, @FieldsOf.cons name type v types fields first rest, distinct, all, held => by
    rw [fieldData, List.forall_mem_cons] at held
    rw [List.forall_mem_cons] at distinct
    rw [ofFields, memberOf, held.1]
    dsimp only
    rw [ok_bind, first.ofDatum_toDatum distinct.1, ok_bind,
      rest.ofFields_fieldData distinct.2 all held.2]
    rfl
end

end Value

/-! ## Commitments -/

namespace LinkedFunction

open Value (FieldsOf)

/-- A run can commit to each field of a receiver of its type. -/
theorem exists_commitField {abi : Abi} {type : RecordType} (this : abi.thisType = some type)
    {salts : List Nat} (count : salts.length = type.fields.length)
    (range : ∀ s ∈ salts, s < 0x10000000000000000) {fields : List (String × Value)}
    (names : fields.map Prod.fst = type.fieldNames) (writable : ∀ f ∈ fields, f.2.Writable)
    {name : String} (own : name ∈ type.fieldNames) :
    ∃ words, commitField abi salts (some (.struct fields)) name = .ok words := by
  obtain ⟨v, value⟩ := exists_lookup_iff.mpr (names ▸ own)
  obtain ⟨index, found⟩ : ∃ index, type.fieldNames.findIdx? (· == name) = some index := by
    rw [← Option.isSome_iff_exists, List.findIdx?_isSome, List.any_eq_true]
    exact ⟨name, own, beq_self_eq_true name⟩
  have inside : index < salts.length := by
    have := (List.findIdx?_eq_some_iff_findIdx_eq.mp found).1
    rw [RecordType.fieldNames, List.length_map] at this
    omega
  have small := range _ (List.getElem_mem inside)
  obtain ⟨m, hm⟩ := Value.exists_fieldMessage abi.contract name (writable _ (mem_of_lookup value))
    (show (0 : Int) ≤ salts[index] ∧ (salts[index] : Int) ≤ 0xffffffffffffffff by omega)
  refine ⟨Value.wordsOf m, ?_⟩
  simp only [commitField, this, found, value, List.getElem?_eq_getElem inside, Value.commitField_eq, hm]
  rfl

/-- A run yields the receiver that it has left, if this is one of its type, and the result. -/
theorem exists_output {f : LinkedFunction} {call : Call} {inputs : Inputs}
    (read : Inputs.Read f.abi call inputs) {type : RecordType} (this : f.abi.thisType = some type)
    (own : ∀ name ∈ f.abi.dependentNames, name ∈ type.fieldNames) (departure : Machine.Departure)
    (m : Machine) {fields : List (String × Value)}
    (left : Value.ofDatum type.toTy m.receiver = .ok (.struct fields))
    (names : fields.map Prod.fst = type.fieldNames) (writable : ∀ f ∈ fields, f.2.Writable)
    {result : Option Value} (yields : resultValue f.abi departure = .ok result) :
    ∃ output, f.output inputs departure m = .ok output ∧ output.receiver = some (.struct fields) ∧
      output.result = result ∧ output.steps = m.steps ∧
      output.readAuth = (f.abi.isReadAuth &&
        (result.map (·.same (.scalar .boolean (.boolean true)))).getD false) := by
  obtain ⟨count, range⟩ := read.salted this
  obtain ⟨hashes, hh⟩ := exists_mapM fun name here =>
    exists_commitField this count range names writable (own name here)
  refine ⟨⟨some (.struct fields), result, hashes, _, m.steps⟩, ?_, rfl, rfl, rfl, rfl⟩
  rw [output, this, Option.mapM_some, left]
  cases result <;> (simp only [Functor.map, Except.map, ok_bind, yields, hh]; rfl)

end LinkedFunction

end Covenant
