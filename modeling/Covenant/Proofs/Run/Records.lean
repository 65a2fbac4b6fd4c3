import Covenant.Proofs.Machine.Effect
import Covenant.Proofs.Run.Inputs
import Covenant.Proofs.Value.Reading
/-!
The receiver and the supplied records, as a run finds them.

* `Inputs.Read.exists_supplied`: the receiver is what the call gives in the fields that the outcome depends
  on, and has defaults elsewhere;
* `Inputs.Read.exists_receiver`, `Inputs.Read.exists_records`: they have values of their types;
* `Inputs.record?`: the record that a reference stands for, the last one with its id;
* `LinkedFunction.exists_recordsOf`: a run looks up these records;
* `Inputs.Read.exists_record`: there is one for each reference that the inputs have been checked for.
-/

namespace Covenant

open Value (FieldsOf)

/-- A type whose values have no parts. -/
def Ty.isAtom : Ty → Bool
  | .array _ | .struct _ _ => false
  | .primitive _ | .publicKey | .reference _ => true

/-! ## Members -/

/-- The machine finds the value of each field of a record whose fields have different names. -/
theorem Value.member_record {fields : List (String × Value)} (nodup : (fields.map Prod.fst).Nodup)
    {name : String} {v : Value} (h : fields.lookup name = some v) :
    (Datum.record (ofMembers (fieldData fields))).member name = .ok v.toDatum := by
  have here : (name, v.toDatum) ∈ (fieldData fields).reverse := by
    rw [List.mem_reverse, fieldData_eq_map]
    exact List.mem_map.mpr ⟨_, mem_of_lookup h, rfl⟩
  have distinct : ((fieldData fields).reverse.map Prod.fst).Nodup := by
    rw [List.map_reverse, List.nodup_reverse, fieldData_eq_map, List.map_map]
    exact nodup
  rw [Datum.member, lookup_ofMembers, lookup_of_mem distinct here]

/-! ## The receiver -/

/-- A receiver with the defaults in all fields that the outcome does not depend on. -/
def Abi.minimal (abi : Abi) (type : RecordType) (fields : List (String × Value)) :
    List (String × Value) :=
  type.fields.map fun f => (f.1,
    if abi.dependentNames.contains f.1 then (fields.lookup f.1).getD (Value.default f.2)
    else Value.default f.2)

theorem Value.FieldsOf.minimal {type : RecordType} {fields : List (String × Value)}
    (typed : FieldsOf type.fields fields) (nodup : type.fieldNames.Nodup) (abi : Abi) :
    FieldsOf type.fields (abi.minimal type fields) := by
  refine FieldsOf.of_map fun f hf => ?_
  split
  · obtain ⟨v, found, isOf⟩ := typed.lookup (lookup_of_mem nodup hf)
    rw [found]
    exact isOf
  · exact Value.isOf_default f.2

theorem Abi.lookup_minimal_eq (abi : Abi) (type : RecordType) (fields : List (String × Value))
    (name : String) : (abi.minimal type fields).lookup name = (type.field? name).map fun t =>
      if abi.dependentNames.contains name then (fields.lookup name).getD (Value.default t)
      else Value.default t :=
  lookup_map (fun f : String × Ty => if abi.dependentNames.contains f.1 then
    (fields.lookup f.1).getD (Value.default f.2) else Value.default f.2) type.fields name

/-- The fields that the outcome depends on are kept. -/
theorem Abi.lookup_minimal {abi : Abi} {type : RecordType} {fields : List (String × Value)}
    (names : fields.map Prod.fst = type.fieldNames) {name : String} (own : name ∈ abi.dependentNames) :
    (abi.minimal type fields).lookup name = fields.lookup name := by
  rw [lookup_minimal_eq, RecordType.field?]
  have names : fields.map Prod.fst = type.fields.map Prod.fst := names
  cases held : type.fields.lookup name with
  | none =>
    rw [lookup_eq_none_iff, ← names] at held
    exact (lookup_eq_none_iff.mpr held).symm
  | some t =>
    obtain ⟨v, found⟩ := exists_lookup_iff.mpr (names ▸ exists_lookup_iff.mp ⟨t, held⟩)
    rw [Option.map_some, if_pos (List.contains_iff_mem.mpr own), found]
    rfl

/-- The fields that the data of a call give for the receiver: those of a value of its type, or the defaults
when there are no data. -/
def Call.Gives (call : Call) (type : RecordType) (fields : List (String × Value)) : Prop :=
  (call.receiver = .null ∧ fields = Value.defaultFields type.fields) ∨
    Value.ofJson "this" type.toTy call.receiver = .ok (.struct fields)

theorem Call.Gives.typed {call : Call} {type : RecordType} {fields : List (String × Value)}
    (h : call.Gives type fields) : FieldsOf type.fields fields := by
  rcases h with ⟨-, rfl⟩ | read
  · exact Value.fieldsOf_default _
  · cases Value.isOf_of_ofJson _ read with
    | struct all => exact all

namespace Inputs

/-- The receiver is what is kept of the fields that the call gives. -/
theorem Read.exists_supplied {abi : Abi} {call : Call} {inputs : Inputs} (h : Read abi call inputs)
    {type : RecordType} (this : abi.thisType = some type) : ∃ supplied, call.Gives type supplied ∧
      inputs.receiver = some (abi.minimal type supplied) := by
  have hr := h.receiver
  rw [this] at hr
  rcases optionMapM_eq_ok.mp hr with ⟨none, -⟩ | ⟨type', fields, same, hf, hr⟩
  · cases none
  · cases same
    rw [hf]
    unfold readReceiver at hr
    dsimp only at hr
    split at hr
    next nothing =>
      cases hr
      exact ⟨_, .inl ⟨nothing, rfl⟩, rfl⟩
    next =>
      obtain ⟨supplied, hs, hr⟩ := bind_eq_ok.mp hr
      obtain ⟨data, hd, hs⟩ := bind_eq_ok.mp hs
      refine ⟨supplied, .inr ?_, congrArg some (pure_eq_ok.mp hr).symm⟩
      rw [RecordType.toTy, Value.ofJson, hd, ok_bind, hs]
      rfl

/-- What is kept of the receiver is that of a value of its type. -/
theorem Read.exists_minimal {abi : Abi} {call : Call} {inputs : Inputs} (h : Read abi call inputs)
    {type : RecordType} (this : abi.thisType = some type) :
    ∃ full, FieldsOf type.fields full ∧ inputs.receiver = some (abi.minimal type full) := by
  obtain ⟨full, supplied, given⟩ := h.exists_supplied this
  exact ⟨full, supplied.typed, given⟩

/-- The receiver has a value of its type in each field. -/
theorem Read.exists_receiver {abi : Abi} {call : Call} {inputs : Inputs} (h : Read abi call inputs)
    {type : RecordType} (this : abi.thisType = some type) (nodup : type.fieldNames.Nodup) :
    ∃ fields, inputs.receiver = some fields ∧ FieldsOf type.fields fields := by
  obtain ⟨full, typed, given⟩ := h.exists_minimal this
  exact ⟨_, given, typed.minimal nodup abi⟩

end Inputs

/-- The field of the receiver that a run starts with. -/
theorem LinkedFunction.machine_member {f : LinkedFunction} {inputs : Inputs}
    {fields : List (String × Value)} (receiver : inputs.receiver = some fields)
    (nodup : (fields.map Prod.fst).Nodup) {name : String} {v : Value}
    (h : fields.lookup name = some v) : (f.machine inputs).receiver.member name = .ok v.toDatum := by
  have same : (f.machine inputs).receiver = .record (ofMembers (Value.fieldData fields)) := by
    simp [machine, Machine.start, receiver]
  rw [same]
  exact Value.member_record nodup h

/-! ## Salts -/

/-- One salt of eight bytes for each field. -/
def RecordType.Salted (type : RecordType) (salts : List Nat) : Prop :=
  salts.length = type.fields.length ∧ ∀ s ∈ salts, s < 0x10000000000000000

namespace Inputs

theorem salts_of_readSaltsFrom {path : String} {i : Nat} {data : List Datum} {salts : List Nat}
    (h : readSaltsFrom path i data = .ok salts) :
    salts.length = data.length ∧ ∀ s ∈ salts, s < 0x10000000000000000 := by
  induction data generalizing i salts with
  | nil =>
    cases h
    exact ⟨rfl, List.forall_mem_nil _⟩
  | cons d rest ih =>
    unfold readSaltsFrom at h
    split at h
    next n =>
      split at h
      next small =>
        obtain ⟨others, ho, h⟩ := bind_eq_ok.mp h
        cases h
        obtain ⟨length, each⟩ := ih ho
        exact ⟨congrArg Nat.succ length, List.forall_mem_cons.mpr ⟨small, each⟩⟩
      next => cases h
    next => cases h

theorem salts_of_readSalts {type : RecordType} {path : String} {d : Datum} {salts : List Nat}
    (h : readSalts type path d = .ok salts) : type.Salted salts := by
  unfold readSalts at h
  split at h
  next =>
    cases h
    refine ⟨List.length_replicate, fun s hs => ?_⟩
    rw [(List.mem_replicate.mp hs).2]
    decide
  next =>
    obtain ⟨parts, -, h⟩ := bind_eq_ok.mp h
    split at h
    next => cases h
    next count =>
      obtain ⟨length, each⟩ := salts_of_readSaltsFrom h
      exact ⟨length.trans (not_not.mp count), each⟩

theorem Read.salted {abi : Abi} {call : Call} {inputs : Inputs} (h : Read abi call inputs)
    {type : RecordType} (this : abi.thisType = some type) : type.Salted inputs.salts :=
  salts_of_readSalts (h.salts type this)

end Inputs

/-! ## Supplied records -/

structure SuppliedRecord.IsOf (type : RecordType) (r : SuppliedRecord) : Prop where
  value : FieldsOf type.fields r.value
  salts : type.Salted r.salts

def SuppliedRecord.hasId (id : Bytes) (r : SuppliedRecord) : Bool :=
  match Inputs.recordId r.value with
  | .ok other => other == id
  | .error _ => false

namespace Inputs

/-- The record of a contract that a reference with an id stands for: the last one that is supplied. -/
def record? (inputs : Inputs) (contract : String) (id : Bytes) : Option SuppliedRecord :=
  ((inputs.others.lookup contract).getD []).reverse.find? (·.hasId id)

theorem isOf_of_readRecords {type : RecordType} {path : String} {i : Nat} {data : List Datum}
    {records : List SuppliedRecord} (h : readRecords type path i data = .ok records) :
    ∀ r ∈ records, r.IsOf type := by
  induction data generalizing i records with
  | nil =>
    cases h
    intro r hr
    cases hr
  | cons d rest ih =>
    obtain ⟨value, hv, h⟩ := bind_eq_ok.mp h
    obtain ⟨salts, hs, h⟩ := bind_eq_ok.mp h
    obtain ⟨others, ho, h⟩ := bind_eq_ok.mp h
    cases h
    obtain ⟨fields, -, hv⟩ := bind_eq_ok.mp hv
    have first : SuppliedRecord.IsOf type ⟨value, salts⟩ :=
      ⟨Value.fieldsOf_of_ofJsonFields _ hv, salts_of_readSalts hs⟩
    exact List.forall_mem_cons.mpr ⟨first, ih ho⟩

theorem name_of_readOther {supplied : Datum} {type : RecordType} {name : String}
    {records : List SuppliedRecord} (h : readOther supplied type = .ok (name, records)) :
    name = type.name ∧ ∀ r ∈ records, r.IsOf type := by
  obtain ⟨known, -, h⟩ := bind_eq_ok.mp h
  split at h
  · cases h
  · split at h
    · cases h
    · obtain ⟨items, -, h⟩ := bind_eq_ok.mp h
      obtain ⟨parts, -, h⟩ := bind_eq_ok.mp h
      obtain ⟨records, hr, h⟩ := bind_eq_ok.mp h
      cases h
      exact ⟨rfl, isOf_of_readRecords hr⟩

/-- All supplied records are of types that the function looks up. -/
theorem types_of_readOthers {abi : Abi} {d : Datum} {others : List (String × List SuppliedRecord)}
    (h : readOthers abi d = .ok others) : ∃ members : List (String × List SuppliedRecord),
    others = ofMembers members ∧ List.Forall₂ (fun (t : RecordType) m => m.1 = t.name ∧
      ∀ r ∈ m.2, r.IsOf t) abi.otherTypes members := by
  obtain ⟨parts, -, h⟩ := bind_eq_ok.mp h
  split at h
  · cases h
  · obtain ⟨members, hm, h⟩ := bind_eq_ok.mp h
    exact ⟨members, (pure_eq_ok.mp h).symm,
      (mapM_eq_ok.mp hm).imp fun t m hr => name_of_readOther hr⟩

theorem exists_type_of_readOthers {abi : Abi} {d : Datum} {others : List (String × List SuppliedRecord)}
    (h : readOthers abi d = .ok others) {name : String} {records : List SuppliedRecord}
    (here : (name, records) ∈ others) : ∃ type ∈ abi.otherTypes, type.name = name ∧
      ∀ r ∈ records, FieldsOf type.fields r.value := by
  obtain ⟨members, same, each⟩ := types_of_readOthers h
  obtain ⟨type, ht, named, typed⟩ := exists_of_forall₂ each (mem_of_mem_ofMembers (same ▸ here))
  exact ⟨type, ht, named.symm, fun r hr => (typed r hr).value⟩

/-- A type of which records are supplied has an id. -/
theorem exists_id_of_readOthers {abi : Abi} {d : Datum} {others : List (String × List SuppliedRecord)}
    (h : readOthers abi d = .ok others) {type : RecordType} (ht : type ∈ abi.otherTypes) :
    ∃ t, type.field? "id" = some t := by
  obtain ⟨parts, -, h⟩ := bind_eq_ok.mp h
  split at h
  · cases h
  · obtain ⟨members, hm, -⟩ := bind_eq_ok.mp h
    obtain ⟨m, -, hr⟩ := exists_of_forall₂ (mapM_eq_ok.mp hm).flip ht
    obtain ⟨known, -, hr⟩ := bind_eq_ok.mp hr
    split at hr
    · cases hr
    · split at hr
      · cases hr
      next id => exact Option.ne_none_iff_exists'.mp (by simpa using id)

namespace Read

variable {abi : Abi} {call : Call} {inputs : Inputs}

theorem exists_type (h : Read abi call inputs) {name : String} {records : List SuppliedRecord}
    (here : (name, records) ∈ inputs.others) : ∃ type ∈ abi.otherTypes, type.name = name ∧
      ∀ r ∈ records, FieldsOf type.fields r.value :=
  exists_type_of_readOthers h.others here

/-- There are records of each type that the function looks up. -/
theorem exists_records (h : Read abi call inputs) {type : RecordType} (ht : type ∈ abi.otherTypes)
    (only : ∀ t ∈ abi.otherTypes, t.name = type.name → t = type) :
    ∃ records, inputs.others.lookup type.name = some records ∧
      ∀ r ∈ records, FieldsOf type.fields r.value := by
  obtain ⟨members, same, each⟩ := types_of_readOthers h.others
  obtain ⟨m, hm, named, -⟩ := exists_of_forall₂ each.flip ht
  obtain ⟨records, found⟩ : ∃ records, inputs.others.lookup type.name = some records := by
    rw [same, lookup_ofMembers, exists_lookup_iff, List.map_reverse, List.mem_reverse, ← named]
    exact List.mem_map_of_mem hm
  obtain ⟨type', ht', named', typed⟩ := h.exists_type (mem_of_lookup found)
  rw [only type' ht' named'] at typed
  exact ⟨records, found, typed⟩

end Read

theorem Read.exists_id {abi : Abi} {call : Call} {inputs : Inputs} (h : Read abi call inputs)
    {type : RecordType} (ht : type ∈ abi.otherTypes) : ∃ t, type.field? "id" = some t :=
  exists_id_of_readOthers h.others ht

/-- A record with an id that has no parts is found by it. -/
theorem exists_recordId {types : List (String × Ty)} {record : List (String × Value)} {type : Ty}
    (typed : FieldsOf types record) (held : types.lookup "id" = some type) (atom : type.isAtom = true) :
    ∃ id, recordId record = .ok id := by
  obtain ⟨v, found, isOf⟩ := typed.lookup held
  cases isOf with
  | scalar | publicKey | reference => exact ⟨_, by rw [recordId, found]⟩
  | array | struct => cases atom

theorem exists_of_hasId {id : Bytes} {records : List SuppliedRecord}
    (h : hasId id records = .ok true) : ∃ r ∈ records, r.hasId id = true := by
  induction records with
  | nil => cases h
  | cons r rest ih =>
    obtain ⟨other, hr, h⟩ := bind_eq_ok.mp h
    split at h
    next same => exact ⟨r, List.mem_cons_self, by simp [SuppliedRecord.hasId, hr, same]⟩
    next =>
      obtain ⟨r', hr', found⟩ := ih h
      exact ⟨r', List.mem_cons_of_mem _ hr', found⟩

/-- Each reference that has been checked stands for a supplied record, unless it is empty. -/
theorem Read.exists_record {abi : Abi} {call : Call} {inputs : Inputs} (h : Read abi call inputs)
    {fields : List (String × Value)} (receiver : inputs.receiver = some fields)
    {name contract : String} (dependent : (name, .reference contract) ∈ abi.dependentFields)
    {records : List SuppliedRecord} (supplied : inputs.others.lookup contract = some records)
    {id : Bytes} (held : fields.lookup name = some (.reference (.bytes id))) (set : id ≠ []) :
    ∃ r ∈ records, inputs.record? contract id = some r := by
  have checked := h.references fields receiver _ dependent
  simp only [checkReference, supplied, held, if_neg set] at checked
  obtain ⟨there, ht, checked⟩ := bind_eq_ok.mp checked
  have known : hasId id records = .ok true := by
    cases there with
    | true => exact misusing_eq_ok.mp ht
    | false => cases checked
  obtain ⟨r, hr, found⟩ := exists_of_hasId known
  have some : (records.reverse.find? (·.hasId id)).isSome = true :=
    List.find?_isSome.mpr ⟨r, List.mem_reverse.mpr hr, found⟩
  obtain ⟨last, hl⟩ := Option.isSome_iff_exists.mp some
  refine ⟨last, List.mem_reverse.mp (List.mem_of_find?_eq_some hl), ?_⟩
  rw [record?, supplied]
  exact hl

end Inputs

/-! ## Records by their ids -/

namespace LinkedFunction

/-- What the machine finds for an id is the last record with it. -/
theorem exists_recordsById {records : List SuppliedRecord}
    (ids : ∀ r ∈ records, ∃ id, Inputs.recordId r.value = .ok id) :
    ∃ found, recordsById records = .ok found ∧ ∀ id, found.lookup id =
      (records.reverse.find? (·.hasId id)).map fun r => (Value.struct r.value).toDatum := by
  induction records with
  | nil => exact ⟨[], rfl, fun id => rfl⟩
  | cons r rest ih =>
    rw [List.forall_mem_cons] at ids
    obtain ⟨own, ho⟩ := ids.1
    obtain ⟨found, hf, each⟩ := ih ids.2
    refine ⟨found ++ [(own, (Value.struct r.value).toDatum)], by rw [recordsById, ho, hf]; rfl,
      fun id => ?_⟩
    rw [List.lookup_append, List.reverse_cons, List.find?_append, each]
    cases rest.reverse.find? (·.hasId id) with
    | some r' => rfl
    | none =>
      by_cases same : id = own
      · simp [SuppliedRecord.hasId, ho, same]
      · simp [SuppliedRecord.hasId, ho, List.lookup_cons, beq_false_of_ne same,
          beq_false_of_ne (Ne.symm same)]

/-- A run looks up the supplied records by their ids. -/
theorem exists_recordsOf {others : List (String × List SuppliedRecord)}
    (ids : ∀ p ∈ others, ∀ r ∈ p.2, ∃ id, Inputs.recordId r.value = .ok id) :
    ∃ all, recordsOf others = .ok all ∧ ∀ contract id, ((all.lookup contract).getD []).lookup id =
      (((others.lookup contract).getD []).reverse.find? (·.hasId id)).map
        fun r => (Value.struct r.value).toDatum := by
  induction others with
  | nil => exact ⟨[], rfl, fun contract id => rfl⟩
  | cons p rest ih =>
    obtain ⟨name, records⟩ := p
    rw [List.forall_mem_cons] at ids
    obtain ⟨found, hf, byId⟩ := exists_recordsById ids.1
    obtain ⟨all, ha, each⟩ := ih ids.2
    refine ⟨(name, found) :: all, by rw [recordsOf, hf, ha]; rfl, fun contract id => ?_⟩
    rw [List.lookup_cons, List.lookup_cons]
    cases contract == name with
    | true => exact byId id
    | false => exact each contract id

/-- The record that a reference stands for in a run. -/
theorem recordOf_eq {inputs : Inputs} {all : List (String × List (Bytes × Datum))}
    (each : ∀ contract id, ((all.lookup contract).getD []).lookup id =
      (((inputs.others.lookup contract).getD []).reverse.find? (·.hasId id)).map
        fun r => (Value.struct r.value).toDatum) {contract : String} {id : Bytes}
    {r : SuppliedRecord} (found : inputs.record? contract id = some r) :
    Surroundings.recordOf ⟨inputs.callerKey, all⟩ contract (.bytes id) =
      .ok (.record (ofMembers (Value.fieldData r.value))) := by
  rw [Inputs.record?] at found
  simp only [Surroundings.recordOf, each, found, Option.map_some, Value.toDatum]

end LinkedFunction

end Covenant
