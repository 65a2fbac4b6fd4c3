import Covenant.Proofs.Datum.Moving
import Covenant.Proofs.Run.Remarking
/-!
Supplied records in another order.

* `Inputs.Reordered`: supplied records with those of each list in any order;
* `Inputs.givenId`: the id of the record that a datum supplies, wherever it stands;
* `Inputs.Reordered.exists_read`, `Inputs.Reordered.checkReference_eq`: the records are read in any order,
  and the same references stand for one of them.
-/

namespace Covenant

/-- Moving the marks of places leaves the datum alone. -/
def Datum.Unmoved (d : Datum) : Prop := ∀ f, Origin.MovesPlaces f → d.remarked f = d

/-- The types that are looked up are told apart by their names. -/
def Abi.Single (abi : Abi) : Prop :=
  ∀ t ∈ abi.otherTypes, ∀ t' ∈ abi.otherTypes, t.name = t'.name → t = t'

theorem Datum.Fresh.unmoved {d : Datum} (h : d.Fresh) : d.Unmoved := fun _ moves => h.remarked moves

namespace Inputs

open Json (itemPath)

/-- A datum, or another list of the same data. -/
def Shuffled (d d' : Datum) : Prop :=
  d' = d ∨ ∃ items items', d = .list items ∧ d' = .list items' ∧ items.Perm items'

/-- Supplied records, with those of each list in any order. -/
def Reordered (others others' : Datum) : Prop :=
  others' = others ∨ ∃ lists lists', others = .record lists ∧ others' = .record lists' ∧
    List.Forall₂ (fun m m' => m'.1 = m.1 ∧ Shuffled m.2 m'.2) lists lists'

theorem Shuffled.symm {d d' : Datum} (h : Shuffled d d') : Shuffled d' d := by
  rcases h with same | ⟨items, items', rfl, rfl, perm⟩
  · exact .inl same.symm
  · exact .inr ⟨items', items, rfl, rfl, perm.symm⟩

theorem Shuffled.exists_parts {d d' : Datum} (h : Shuffled d d') {parts : List Datum}
    (hp : d.parts = .ok parts) : ∃ parts', d'.parts = .ok parts' ∧ parts.Perm parts' := by
  rcases h with rfl | ⟨items, items', rfl, rfl, perm⟩
  · exact ⟨parts, hp, .refl _⟩
  · cases hp
    exact ⟨items', rfl, perm⟩

namespace Reordered

variable {others others' : Datum}

theorem symm (h : Reordered others others') : Reordered others' others := by
  rcases h with same | ⟨lists, lists', rfl, rfl, each⟩
  · exact .inl same.symm
  · exact .inr ⟨lists', lists, rfl, rfl,
      each.flip.imp fun m' m ⟨named, shuffled⟩ => ⟨named.symm, shuffled.symm⟩⟩

theorem isTrue_eq (h : Reordered others others') : others'.isTrue = others.isTrue := by
  rcases h with rfl | ⟨lists, lists', rfl, rfl, each⟩
  · rfl
  · cases each <;> rfl

theorem parts_eq (h : Reordered others others') : others'.parts = others.parts := by
  rcases h with rfl | ⟨lists, lists', rfl, rfl, each⟩
  · rfl
  · exact congrArg Except.ok (map_eq_of_forall₂ (each.imp fun m m' named => by rw [named.1])).symm

theorem includes_eq (h : Reordered others others') (name : String) :
    others'.includes (.text name) = others.includes (.text name) := by
  rcases h with rfl | ⟨lists, lists', rfl, rfl, each⟩
  · rfl
  · refine congrArg Except.ok ?_
    induction each with
    | nil => rfl
    | cons first _ ih => rw [List.any_cons, List.any_cons, ih, first.1]

theorem exists_member {lists lists' : Fields}
    (each : List.Forall₂ (fun m m' => m'.1 = m.1 ∧ Shuffled m.2 m'.2) lists lists') {name : String}
    {d : Datum} (h : (Datum.record lists).member name = .ok d) :
    ∃ d', (Datum.record lists').member name = .ok d' ∧ Shuffled d d' := by
  rw [Datum.member] at h ⊢
  induction each with
  | nil => cases h
  | @cons m m' _ _ first _ ih =>
    rw [List.lookup_cons] at h ⊢
    rw [first.1]
    cases same : name == m.1 with
    | true =>
      rw [same] at h
      cases h
      exact ⟨m'.2, rfl, first.2⟩
    | false =>
      rw [same] at h
      exact ih h

theorem exists_recordData (h : Reordered others others') {name : String} {data : List Datum}
    (hd : recordData others name = .ok data) :
    ∃ data', recordData others' name = .ok data' ∧ data.Perm data' := by
  rcases h with rfl | ⟨lists, lists', rfl, rfl, each⟩
  · exact ⟨data, hd, .refl _⟩
  · obtain ⟨items, hi, hd⟩ := bind_eq_ok.mp hd
    obtain ⟨items', hi', shuffled⟩ := exists_member each hi
    obtain ⟨data', hd', perm⟩ := shuffled.exists_parts hd
    exact ⟨data', bind_eq_ok.mpr ⟨items', hi', hd'⟩, perm⟩

/-- So is what is gone through for records. -/
theorem supplied (h : Reordered others others') :
    Reordered (if others.isTrue then others else .record []) (if others'.isTrue then others' else .record []) := by
  rw [h.isTrue_eq]
  split
  · exact h
  · exact .inl rfl

end Reordered

/-! ## Records wherever they stand -/

/-- A datum that supplies a record at one place supplies it at another, but for marks. -/
theorem exists_readSupplied {type : RecordType} {path : String} {d : Datum} (unmoved : d.Unmoved)
    {r : SuppliedRecord} (h : readSupplied type path d = .ok r) (path' : String) :
    ∃ f : Origin → Origin, readSupplied type path' d = .ok (r.remarked f) := by
  refine ⟨Origin.moved (fun _ : Unit => path) fun _ => path', ?_⟩
  have apart : Origin.Apart fun _ : Unit => path := fun _ _ _ _ _ => rfl
  have again := readSupplied_remarked (Origin.moves_moved apart (fun _ => path') ()) h
  rwa [unmoved _ Origin.movesPlaces_moved] at again

/-- Ids do not show marks. -/
theorem recordId_remarked (f : Origin → Origin) (record : List (String × Value)) :
    recordId (Value.remarkedFields f record) = recordId record := by
  rw [recordId, Value.lookup_remarkedFields, recordId]
  cases record.lookup "id" with
  | none => rfl
  | some v =>
    cases v with
    | scalar | publicKey | reference =>
      exact congrArg (fun s => Except.ok (Text.utf8 s)) (Datum.shown_remarked _)
    | _ => rfl

def givenId (type : RecordType) (d : Datum) : Option Bytes :=
  match readSupplied type "" d with
  | .ok r => (recordId r.value).toOption
  | .error _ => none

def givesId (type : RecordType) (id : Bytes) (d : Datum) : Bool := givenId type d == some id

theorem givesId_eq {type : RecordType} {path : String} {d : Datum} (unmoved : d.Unmoved)
    {r : SuppliedRecord} (h : readSupplied type path d = .ok r) (id : Bytes) :
    givesId type id d = r.hasId id := by
  obtain ⟨f, there⟩ := exists_readSupplied unmoved h ""
  rw [givesId, givenId, there]
  dsimp only [SuppliedRecord.hasId]
  rw [SuppliedRecord.remarked, recordId_remarked]
  cases recordId r.value <;> rfl

theorem recordId_eq {type : RecordType} {path path' : String} {d : Datum} (unmoved : d.Unmoved)
    {r r' : SuppliedRecord} (h : readSupplied type path d = .ok r) (h' : readSupplied type path' d = .ok r') :
    recordId r'.value = recordId r.value := by
  obtain ⟨f, there⟩ := exists_readSupplied unmoved h path'
  cases h'.symm.trans there
  exact recordId_remarked f r.value

variable {abi : Abi} {others others' : Datum} {read read' : List (String × List SuppliedRecord)}

/-- Records that are read in one order are read in any. -/
theorem Reordered.exists_read (h : Reordered others others') (unmoved : others.Unmoved)
    (hr : readOthers abi others = .ok read) : ∃ read', readOthers abi others' = .ok read' := by
  obtain ⟨⟨parts, hp, known⟩, members, -, each⟩ := readOthers_eq_ok.mp hr
  have again : ∀ type ∈ abi.otherTypes,
      ∃ p, readOther (if others'.isTrue then others' else .record []) type = .ok p := by
    intro type ht
    obtain ⟨p, -, made⟩ := exists_of_forall₂ each.flip ht
    obtain ⟨present, id, data, hd, records, -⟩ := readOther_eq_ok.mp made
    obtain ⟨data', hd', perm⟩ := h.supplied.exists_recordData hd
    have fixed : ∀ d ∈ data, d.Unmoved := by
      intro d hm f moves
      refine remarked_of_mem_recordData ?_ hd d hm
      split
      · exact unmoved f moves
      · exact Datum.remarked_record []
    have one : ∀ d ∈ data, ∀ path, ∃ r, readSupplied type path d = .ok r := by
      intro d hm path
      obtain ⟨i, r, -, made⟩ := exists_record_of_readRecords records hm
      obtain ⟨f, there⟩ := exists_readSupplied (fixed d hm) made path
      exact ⟨_, there⟩
    have all : ∃ records', readRecords type ("other_records." ++ type.name) 0 data' = .ok records' := by
      rw [readRecords_eq_mapM]
      refine exists_mapM fun p hp => one p.1 (perm.symm.subset ?_) _
      exact List.fst_mem_of_mem_zipIdx hp
    obtain ⟨records', hr'⟩ := all
    exact ⟨(type.name, records'),
      readOther_eq_ok.mpr ⟨(h.supplied.includes_eq _).trans present, id, data', hd', hr', rfl⟩⟩
  obtain ⟨members', hm⟩ := exists_mapM again
  exact ⟨_, readOthers_eq_ok.mpr
    ⟨⟨parts, h.supplied.parts_eq.trans hp, known⟩, members', rfl, mapM_eq_ok.mp hm⟩⟩

/-! ## Ids -/

structure Rereads (type : RecordType) (data data' : List Datum) (records records' : List SuppliedRecord) :
    Prop where
  unmoved : ∀ d ∈ data, d.Unmoved
  perm : data.Perm data'
  read : readRecords type ("other_records." ++ type.name) 0 data = .ok records
  read' : readRecords type ("other_records." ++ type.name) 0 data' = .ok records'

/-- Each record has the id that its datum gives. -/
theorem hasId_cases {type : RecordType} {path : String} {data : List Datum} {records : List SuppliedRecord}
    (unmoved : ∀ d ∈ data, d.Unmoved) (read : readRecords type path 0 data = .ok records) (id : Bytes)
    (i : Nat) : (data[i]? = none ∧ records[i]? = none) ∨ ∃ (d : Datum) (r : SuppliedRecord),
      data[i]? = some d ∧ records[i]? = some r ∧ givesId type id d = r.hasId id := by
  rcases readRecords_eq_ok read i with none | ⟨d, r, hd, hr, made⟩
  · exact .inl none
  · exact .inr ⟨d, r, hd, hr, givesId_eq (unmoved d (List.mem_of_getElem? hd)) made id⟩

theorem any_hasId {type : RecordType} {path : String} {data : List Datum} {records : List SuppliedRecord}
    (unmoved : ∀ d ∈ data, d.Unmoved) (read : readRecords type path 0 data = .ok records) (id : Bytes) :
    records.any (·.hasId id) = data.any (givesId type id) := by
  rw [Bool.eq_iff_iff, List.any_eq_true, List.any_eq_true]
  constructor
  · rintro ⟨r, hr, found⟩
    obtain ⟨i, hi⟩ := List.mem_iff_getElem?.mp hr
    rcases hasId_cases unmoved read id i with ⟨-, none⟩ | ⟨d, r', hd, hr', same⟩
    · cases none.symm.trans hi
    · cases hr'.symm.trans hi
      exact ⟨d, List.mem_of_getElem? hd, same.trans found⟩
  · rintro ⟨d, hd, found⟩
    obtain ⟨i, hi⟩ := List.mem_iff_getElem?.mp hd
    rcases hasId_cases unmoved read id i with ⟨none, -⟩ | ⟨d', r, hd', hr, same⟩
    · cases none.symm.trans hi
    · cases hd'.symm.trans hi
      exact ⟨r, List.mem_of_getElem? hr, same.symm.trans found⟩

theorem hasId_eq_any {id : Bytes} {records : List SuppliedRecord}
    (named : ∀ r ∈ records, ∃ id, recordId r.value = .ok id) :
    hasId id records = .ok (records.any (·.hasId id)) := by
  induction records with
  | nil => rfl
  | cons r rest ih =>
    rw [List.forall_mem_cons] at named
    obtain ⟨other, ho⟩ := named.1
    rw [hasId, ho, ok_bind, ih named.2, List.any_cons, SuppliedRecord.hasId, ho]
    by_cases same : other = id <;> simp [same, pure, Except.pure]

/-- An id with parts names no record. -/
theorem recordId_eq_error {types : List (String × Ty)} {record : List (String × Value)} {type : Ty}
    (typed : Value.FieldsOf types record) (held : types.lookup "id" = some type)
    (parts : type.isAtom = false) : recordId record = .error .property := by
  obtain ⟨v, found, isOf⟩ := typed.lookup held
  cases isOf with
  | scalar | publicKey | reference => cases parts
  | array | struct => rw [recordId, found]

namespace Rereads

variable {type : RecordType} {data data' : List Datum} {records records' : List SuppliedRecord}

theorem length_eq (h : Rereads type data data' records records') : records'.length = records.length := by
  have length : ∀ {data records}, readRecords type ("other_records." ++ type.name) 0 data = .ok records →
      data.length = records.length := by
    intro data records read
    rw [readRecords_eq_mapM] at read
    rw [← (mapM_eq_ok.mp read).length_eq, List.length_zipIdx]
  rw [← length h.read, ← length h.read', h.perm.length_eq]

theorem symm (h : Rereads type data data' records records') : Rereads type data' data records' records :=
  ⟨fun d hd => h.unmoved d (h.perm.symm.subset hd), h.perm.symm, h.read', h.read⟩

/-- The same ids are there. -/
theorem hasId_eq (h : Rereads type data data' records records') {t : Ty}
    (held : type.field? "id" = some t) (id : Bytes) : hasId id records' = hasId id records := by
  have typed := fun r hr => (isOf_of_readRecords h.read r hr).value
  have typed' := fun r hr => (isOf_of_readRecords h.read' r hr).value
  cases atom : t.isAtom with
  | true =>
    rw [hasId_eq_any fun r hr => exists_recordId (typed r hr) held atom,
      hasId_eq_any fun r hr => exists_recordId (typed' r hr) held atom, any_hasId h.unmoved h.read,
      any_hasId h.symm.unmoved h.read', h.perm.any_eq]
  | false =>
    have length := h.length_eq
    cases records with
    | nil => rw [List.length_eq_zero_iff.mp length]
    | cons r rest =>
      cases records' with
      | nil => cases length
      | cons r' rest' =>
        rw [hasId, hasId, recordId_eq_error (typed r List.mem_cons_self) held atom,
          recordId_eq_error (typed' r' List.mem_cons_self) held atom]
        rfl

end Rereads

/-! ## Records of all types -/

theorem lookup_eq_none_of_readOthers (h : readOthers abi others = .ok read) {name : String}
    (unknown : ∀ t ∈ abi.otherTypes, t.name ≠ name) : read.lookup name = none := by
  by_contra some
  obtain ⟨records, found⟩ := Option.ne_none_iff_exists'.mp some
  obtain ⟨type, ht, named, -⟩ := exists_of_readOthers h (mem_of_lookup found)
  exact unknown type ht named.symm

/-- There are records of each type that is looked up. -/
theorem exists_lookup_of_readOthers (single : abi.Single) (h : readOthers abi others = .ok read)
    {type : RecordType} (ht : type ∈ abi.otherTypes) : ∃ data records,
      recordData others type.name = .ok data ∧
      readRecords type ("other_records." ++ type.name) 0 data = .ok records ∧
      read.lookup type.name = some records := by
  have there : ∃ records, read.lookup type.name = some records := by
    obtain ⟨-, members, rfl, each⟩ := readOthers_eq_ok.mp h
    obtain ⟨p, hp, made⟩ := exists_of_forall₂ each.flip ht
    obtain ⟨-, -, data, -, -, named⟩ := readOther_eq_ok.mp made
    rw [lookup_ofMembers, exists_lookup_iff, List.map_reverse, List.mem_reverse, ← named]
    exact List.mem_map_of_mem hp
  obtain ⟨records, found⟩ := there
  obtain ⟨type', ht', named, data, hd, hr⟩ := exists_of_readOthers h (mem_of_lookup found)
  obtain rfl := single type ht type' ht' named
  exact ⟨data, records, hd, hr, found⟩

namespace Reordered

/-- The records under a name are read of the same data. -/
theorem lookup_cases (h : Reordered others others') (unmoved : others.Unmoved) (single : abi.Single)
    (hr : readOthers abi others = .ok read) (hr' : readOthers abi others' = .ok read') (name : String) :
    (read.lookup name = none ∧ read'.lookup name = none) ∨
    ∃ type ∈ abi.otherTypes, type.name = name ∧ ∃ data data' records records',
      recordData others name = .ok data ∧ recordData others' name = .ok data' ∧
      Rereads type data data' records records' ∧
      read.lookup name = some records ∧ read'.lookup name = some records' := by
  by_cases known : ∃ t ∈ abi.otherTypes, t.name = name
  · obtain ⟨type, ht, rfl⟩ := known
    obtain ⟨data, records, hd, read, found⟩ := exists_lookup_of_readOthers single hr ht
    obtain ⟨data', records', hd', read', found'⟩ := exists_lookup_of_readOthers single hr' ht
    obtain ⟨data'', hd'', perm⟩ := h.exists_recordData hd
    cases hd'.symm.trans hd''
    exact .inr ⟨type, ht, rfl, data, data', records, records', hd, hd',
      ⟨fun d hm f moves => remarked_of_mem_recordData (unmoved f moves) hd d hm, perm, read, read'⟩,
      found, found'⟩
  · simp only [not_exists, not_and] at known
    exact .inl ⟨lookup_eq_none_of_readOthers hr known, lookup_eq_none_of_readOthers hr' known⟩

/-- The same references stand for supplied records. -/
theorem checkReference_eq (h : Reordered others others') (unmoved : others.Unmoved) (single : abi.Single)
    (hr : readOthers abi others = .ok read) (hr' : readOthers abi others' = .ok read')
    (receiver : List (String × Value)) (field : String × Ty) :
    checkReference abi receiver read' field = checkReference abi receiver read field := by
  unfold checkReference
  cases field.2 with
  | reference contract =>
    dsimp only
    rcases h.lookup_cases unmoved single hr hr' contract with
      ⟨none, none'⟩ | ⟨type, ht, -, _, _, records, records', -, -, again, found, found'⟩
    · rw [none, none']
    · obtain ⟨t, id⟩ := exists_id_of_readOthers hr ht
      rw [found, found']
      simp only [again.hasId_eq id]
  | _ => rfl

end Reordered

/-! ## Calls -/

/-- Of a call only the supplied records matter for whether they are read. -/
theorem ofCall_others {call : Call} {inputs : Inputs} (h : ofCall abi call = .ok inputs)
    (read : readOthers abi others' = .ok read')
    (references : ∀ fields field, checkReference abi fields read' field =
      checkReference abi fields inputs.others field) :
    ofCall abi { call with others := others' } = .ok { inputs with others := read' } := by
  unfold ofCall at h ⊢
  obtain ⟨key, hk, h⟩ := bind_eq_ok.mp h
  dsimp only
  rw [hk, ok_bind]
  dsimp only at h ⊢
  cases this : abi.thisType
  all_goals
    rw [this] at h
    dsimp only at h ⊢
    obtain ⟨salts, hs, h⟩ := bind_eq_ok.mp h
    obtain ⟨receiver, hv, h⟩ := bind_eq_ok.mp h
    obtain ⟨arguments, ha, h⟩ := bind_eq_ok.mp h
    obtain ⟨supplied, ho, h⟩ := bind_eq_ok.mp h
    rw [hs, ok_bind, hv, ok_bind, ha, ok_bind, read, ok_bind]
    cases receiver with
    | none =>
      cases h
      rfl
    | some fields =>
      obtain ⟨⟨⟩, hc, h⟩ := bind_eq_ok.mp h
      cases h
      have checked : abi.dependentFields.forM (checkReference abi fields read') = .ok () :=
        forM_eq_ok.mpr fun field hf => (references fields field).trans (forM_eq_ok.mp hc field hf)
      dsimp only
      rw [checked]
      rfl

/-- A call is accepted with its records in any order. -/
theorem Reordered.exists_ofCall {call : Call} {inputs : Inputs} (h : Reordered call.others others')
    (unmoved : call.others.Unmoved) (single : abi.Single) (accepted : ofCall abi call = .ok inputs) :
    ∃ read', readOthers abi others' = .ok read' ∧
      ofCall abi { call with others := others' } = .ok { inputs with others := read' } := by
  have hr := (read_of_ofCall accepted).others
  obtain ⟨read', hr'⟩ := h.exists_read unmoved hr
  exact ⟨read', hr', ofCall_others accepted hr' (h.checkReference_eq unmoved single hr hr')⟩

end Inputs

end Covenant
