import Covenant.Proofs.Compile.Acceptance
import Covenant.Proofs.Compile.Guard
import Covenant.Proofs.Machine.Remarking
import Covenant.Proofs.Run.Records
import Covenant.Proofs.Value.Remarking
/-!
Calls and runs with other marks on results that are no numbers.

* `LinkedCode.unmarked_of_link`: compiled code has no marks of its own;
* `Inputs.Read.receiver_remarked`, `Inputs.Read.arguments_remarked`: what is read from data that a
  replacement of marks leaves alone is left alone by it;
* `Inputs.readSupplied_remarked`: a supplied record is read at another path as the same record but for
  marks;
* `LinkedFunction.run_remarked`: on inputs whose records are the same but for marks a run yields the same
  but for marks.
-/

namespace Covenant

variable {f : Origin → Origin}

/-! ## Compiled code -/

theorem Double.remarked_of_number {x : Double} (number : x.isNan = false) : x.remarked f = x := by
  cases x with
  | nan => cases number
  | number => rfl

/-- Literals have no marks. -/
theorem IsLiteral.remarked {p : Primitive} {d : Datum} (h : IsLiteral p d) : d.remarked f = d := by
  cases h with
  | single number =>
    exact congrArg Datum.float
      (Double.remarked_of_number ((Double.isNan_roundSingle _ _).trans number))
  | double number => exact congrArg Datum.float (Double.remarked_of_number number)
  | _ => rfl

namespace LinkedCode

/-- What is linked from proper code has no marks of its own. -/
theorem unmarked_of_link {l : Layout} {abi : Abi} {header : Header} {code : Code} {linked : LinkedCode}
    (proper : Code.Proper l code) (h : code.link abi header = .ok linked) : linked.Unmarked f := by
  intro place j hj
  refine (constants_of_link proper h hj).imp_right fun constants kind d pushed => ?_
  rcases constants kind d pushed with ⟨p, own⟩ | ⟨k, rfl⟩
  · exact own.remarked
  · rfl

end LinkedCode

/-! ## Calls -/

def SuppliedRecord.remarked (f : Origin → Origin) (r : SuppliedRecord) : SuppliedRecord :=
  ⟨Value.remarkedFields f r.value, r.salts⟩

theorem Datum.remarked_ne_null {d : Datum} (set : d ≠ .null) : d.remarked f ≠ .null := by
  intro none
  cases d with
  | list | record => simp at none
  | null => exact set rfl
  | _ => cases none

namespace Inputs

variable {path path' : String}

theorem readRecord_remarked (moves : Origin.Moves f path path') {type : RecordType} {d : Datum}
    {fields : List (String × Value)} (h : readRecord type path d = .ok fields) :
    readRecord type path' (d.remarked f) = .ok (Value.remarkedFields f fields) := by
  obtain ⟨members, hm, h⟩ := bind_eq_ok.mp h
  rw [readRecord, Value.membersOf_remarked hm, ok_bind]
  exact Value.ofJsonFields_remarked type.fields moves h

theorem readSaltsFrom_remarked {i : Nat} {data : List Datum} {salts : List Nat}
    (h : readSaltsFrom path i data = .ok salts) :
    readSaltsFrom path' i (data.map (Datum.remarked f)) = .ok salts := by
  induction data generalizing i salts with
  | nil => exact h
  | cons d rest ih =>
    unfold readSaltsFrom at h
    split at h
    next n =>
      split at h
      next small =>
        obtain ⟨others, ho, h⟩ := bind_eq_ok.mp h
        rw [List.map_cons, Datum.remarked, readSaltsFrom, if_pos small, ih ho]
        exact h
      next => cases h
    next => cases h

theorem readSalts_remarked {type : RecordType} {d : Datum} {salts : List Nat}
    (h : readSalts type path d = .ok salts) : readSalts type path' (d.remarked f) = .ok salts := by
  unfold readSalts at h
  split at h
  · exact h
  next set =>
    have same : readSalts type path' (d.remarked f) = (do
        let salts ← misusing (d.remarked f).parts
        if salts.length ≠ type.fields.length then
          Value.refuse path' (.saltCount type.fields.length salts.length)
        else readSaltsFrom path' 0 salts) := by
      unfold readSalts
      split
      next none => exact absurd none (Datum.remarked_ne_null set)
      next => rfl
    obtain ⟨parts, hp, h⟩ := bind_eq_ok.mp h
    rw [same, Datum.parts_remarked, misusing_eq_ok.mp hp]
    change (if (parts.map _).length ≠ _ then _ else _) = _
    rw [List.length_map]
    split at h
    · cases h
    next count =>
      rw [if_neg count]
      exact readSaltsFrom_remarked h

theorem readReceiver_remarked (moves : Origin.Moves f "this" "this") {abi : Abi} {type : RecordType}
    {d : Datum} {fields : List (String × Value)} (h : readReceiver abi type d = .ok fields) :
    readReceiver abi type (d.remarked f) = .ok (Value.remarkedFields f fields) := by
  have kept : ∀ supplied : List (String × Value), Value.remarkedFields f (type.fields.map fun p => (p.1,
      if abi.dependentNames.contains p.1 then (supplied.lookup p.1).getD (Value.default p.2)
      else Value.default p.2)) = type.fields.map fun p => (p.1,
      if abi.dependentNames.contains p.1 then
        ((Value.remarkedFields f supplied).lookup p.1).getD (Value.default p.2)
      else Value.default p.2) := by
    intro supplied
    rw [Value.remarkedFields_eq_map, List.map_map]
    refine List.map_congr_left fun p _ => congrArg (Prod.mk p.1) ?_
    dsimp only
    split
    · rw [Value.lookup_remarkedFields]
      cases supplied.lookup p.1 with
      | none => exact Value.default_remarked p.2
      | some v => rfl
    · exact Value.default_remarked p.2
  have given : ∀ {d : Datum}, d ≠ .null → readReceiver abi type d = (do
      let supplied ← readRecord type "this" d
      return type.fields.map fun p => (p.1,
        if abi.dependentNames.contains p.1 then (supplied.lookup p.1).getD (Value.default p.2)
        else Value.default p.2)) := by
    intro d set
    cases d <;> first | exact absurd rfl set | rfl
  by_cases none : d = .null
  · subst none
    cases h
    refine congrArg Except.ok ((kept _).trans ?_).symm
    rw [Value.defaultFields_remarked]
  · rw [given none] at h
    obtain ⟨supplied, hs, h⟩ := bind_eq_ok.mp h
    obtain rfl := pure_eq_ok.mp h
    rw [given (Datum.remarked_ne_null none), readRecord_remarked moves hs, ok_bind, kept]
    rfl

/-- The parts of a datum that a replacement leaves alone are left alone by it. -/
theorem remarked_of_mem_parts {d : Datum} (fixed : d.remarked f = d) {parts : List Datum}
    (h : d.parts = .ok parts) : ∀ x ∈ parts, x.remarked f = x := by
  have same := Datum.parts_remarked (f := f) d
  rw [fixed, h] at same
  exact List.map_inj_left.mp ((Except.ok.inj same).symm.trans (List.map_id' parts).symm)

namespace Read

variable {abi : Abi} {call : Call} {inputs : Inputs}

/-- A replacement that leaves the data of the receiver and its places alone leaves the receiver alone. -/
theorem receiver_remarked (h : Read abi call inputs) (moves : Origin.Moves f "this" "this")
    (fixed : call.receiver.remarked f = call.receiver) {fields : List (String × Value)}
    (receiver : inputs.receiver = some fields) : Value.remarkedFields f fields = fields := by
  rcases optionMapM_eq_ok.mp h.receiver with ⟨-, none⟩ | ⟨type, fields', -, some, read⟩
  · cases none.symm.trans receiver
  · cases some.symm.trans receiver
    have again := readReceiver_remarked moves read
    rw [fixed, read] at again
    exact (Except.ok.inj again).symm

theorem arguments_remarked (h : Read abi call inputs) (moves : Origin.Moves f "args." "args.")
    (fixed : call.arguments.remarked f = call.arguments) : ∀ v ∈ inputs.arguments, v.remarked f = v := by
  intro v hv
  have read := h.arguments
  unfold readArguments at read
  obtain ⟨data, hd, read⟩ := bind_eq_ok.mp read
  split at read
  · cases read
  · obtain ⟨a, ha, read⟩ := exists_of_forall₂ (mapM_eq_ok.mp read) hv
    have own := remarked_of_mem_parts fixed (misusing_eq_ok.mp hd) _
      (List.of_mem_zip (List.of_mem_zip ha).2).2
    have read := readArgument_eq_ok.mp read
    have again := Value.ofJson_remarked a.2.1 (moves.below a.1) read
    rw [own, read] at again
    exact (Except.ok.inj again).symm

end Read

/-! ## Supplied records -/

/-- The record that a datum supplies and its salts, in a pair or alone. -/
def suppliedPair : Datum → Datum × Datum
  | .list [record, salts] => (record, salts)
  | d => (d, .null)

def readSupplied (type : RecordType) (path : String) (d : Datum) : Except CallFault SuppliedRecord := do
  let value ← readRecord type path (suppliedPair d).1
  let salts ← readSalts type (path ++ ".salts") (suppliedPair d).2
  return ⟨value, salts⟩

theorem suppliedPair_remarked (d : Datum) :
    suppliedPair (d.remarked f) = ((suppliedPair d).1.remarked f, (suppliedPair d).2.remarked f) := by
  cases d with
  | list items =>
    rw [Datum.remarked_list]
    rcases items with _ | ⟨a, _ | ⟨b, _ | ⟨c, rest⟩⟩⟩ <;> simp [suppliedPair]
    all_goals rfl
  | record fields =>
    rw [Datum.remarked_record]
    exact Prod.ext (Datum.remarked_record fields).symm rfl
  | _ => rfl

/-- Records are read one by one, each at its place. -/
theorem readRecords_eq_mapM (type : RecordType) (path : String) (i : Nat) (data : List Datum) :
    readRecords type path i data =
      (data.zipIdx i).mapM fun p => readSupplied type (Json.itemPath path p.2) p.1 := by
  induction data generalizing i with
  | nil => rfl
  | cons d rest ih =>
    have unfolded : readRecords type path i (d :: rest) = (do
        let value ← readRecord type (Json.itemPath path i) (suppliedPair d).1
        let salts ← readSalts type (Json.itemPath path i ++ ".salts") (suppliedPair d).2
        return ⟨value, salts⟩ :: (← readRecords type path (i + 1) rest)) := rfl
    rw [unfolded, List.zipIdx_cons, List.mapM_cons, ← ih, readSupplied]
    simp only [bind_assoc, pure_bind]

/-- What is read at each place is read of the datum there. -/
theorem readRecords_eq_ok {type : RecordType} {path : String} {data : List Datum}
    {records : List SuppliedRecord} (h : readRecords type path 0 data = .ok records) (i : Nat) :
    (data[i]? = none ∧ records[i]? = none) ∨ ∃ d r, data[i]? = some d ∧ records[i]? = some r ∧
      readSupplied type (Json.itemPath path i) d = .ok r := by
  rw [readRecords_eq_mapM] at h
  have each := mapM_eq_ok.mp h
  have length : data.length = records.length := by rw [← each.length_eq, List.length_zipIdx]
  rcases Nat.lt_or_ge i data.length with early | late
  · refine .inr ⟨data[i], records[i], List.getElem?_eq_getElem early,
      List.getElem?_eq_getElem (length ▸ early), ?_⟩
    have here := each.get (i := i) (by simpa using early) (length ▸ early)
    simpa using here
  · exact .inl ⟨List.getElem?_eq_none late, List.getElem?_eq_none (length ▸ late)⟩

/-- Each record is read of one of the data. -/
theorem exists_datum_of_readRecords {type : RecordType} {path : String} {data : List Datum}
    {records : List SuppliedRecord} (h : readRecords type path 0 data = .ok records) {r : SuppliedRecord}
    (hr : r ∈ records) : ∃ i, ∃ d ∈ data, readSupplied type (Json.itemPath path i) d = .ok r := by
  obtain ⟨i, hi⟩ := List.mem_iff_getElem?.mp hr
  rcases readRecords_eq_ok h i with ⟨-, none⟩ | ⟨d, r', hd, hr', made⟩
  · cases none.symm.trans hi
  · cases hr'.symm.trans hi
    exact ⟨i, d, List.mem_of_getElem? hd, made⟩

/-- Each of the data supplies one of the records. -/
theorem exists_record_of_readRecords {type : RecordType} {path : String} {data : List Datum}
    {records : List SuppliedRecord} (h : readRecords type path 0 data = .ok records) {d : Datum}
    (hd : d ∈ data) : ∃ i, ∃ r ∈ records, readSupplied type (Json.itemPath path i) d = .ok r := by
  obtain ⟨i, hi⟩ := List.mem_iff_getElem?.mp hd
  rcases readRecords_eq_ok h i with ⟨none, -⟩ | ⟨d', r, hd', hr, made⟩
  · cases none.symm.trans hi
  · cases hd'.symm.trans hi
    exact ⟨i, r, List.mem_of_getElem? hr, made⟩

theorem readSupplied_remarked (moves : Origin.Moves f path path') {type : RecordType} {d : Datum}
    {r : SuppliedRecord} (h : readSupplied type path d = .ok r) :
    readSupplied type path' (d.remarked f) = .ok (r.remarked f) := by
  obtain ⟨value, hv, h⟩ := bind_eq_ok.mp h
  obtain ⟨salts, hs, h⟩ := bind_eq_ok.mp h
  cases h
  rw [readSupplied, suppliedPair_remarked]
  dsimp only
  rw [readRecord_remarked moves hv, ok_bind, readSalts_remarked hs]
  rfl

def recordData (others : Datum) (name : String) : Except Misuse (List Datum) := do
  (← others.member name).parts

theorem remarked_of_mem_recordData {others : Datum} (fixed : others.remarked f = others) {name : String}
    {data : List Datum} (h : recordData others name = .ok data) : ∀ d ∈ data, d.remarked f = d := by
  obtain ⟨items, hi, h⟩ := bind_eq_ok.mp h
  have same := Datum.member_remarked (f := f) name others
  rw [fixed, hi] at same
  exact remarked_of_mem_parts (Except.ok.inj same).symm h

theorem readOther_eq_ok {supplied : Datum} {type : RecordType} {p : String × List SuppliedRecord} :
    readOther supplied type = .ok p ↔ supplied.includes (.text type.name) = .ok true ∧
      (type.field? "id").isSome = true ∧ ∃ data, recordData supplied type.name = .ok data ∧
        readRecords type ("other_records." ++ type.name) 0 data = .ok p.2 ∧ p.1 = type.name := by
  unfold readOther recordData
  dsimp only
  cases hp : supplied.includes (.text type.name) with
  | error why => simp [misusing, bind, Except.bind]
  | ok present =>
    cases present with
    | false => simp [misusing, Value.refuse, bind, Except.bind]
    | true =>
      cases hid : type.field? "id" with
      | none => simp [misusing, Value.refuse, bind, Except.bind]
      | some t =>
        change (do
          let items ← misusing (supplied.member type.name)
          return (type.name, ← readRecords type ("other_records." ++ type.name) 0
            (← misusing items.parts))) = .ok p ↔ _
        simp only [bind_eq_ok, misusing_eq_ok, pure_eq_ok, Option.isSome_some, true_and]
        constructor
        · rintro ⟨items, hi, data, hd, records, hr, rfl⟩
          exact ⟨data, ⟨items, hi, hd⟩, hr, rfl⟩
        · rintro ⟨data, ⟨items, hi, hd⟩, hr, named⟩
          exact ⟨items, hi, data, hd, p.2, hr, Prod.ext named.symm rfl⟩

theorem readOthers_eq_ok {abi : Abi} {others : Datum} {read : List (String × List SuppliedRecord)} :
    readOthers abi others = .ok read ↔
      (∃ parts, (if others.isTrue then others else .record []).parts = .ok parts ∧
        ∀ d ∈ parts, isReferenced abi d = true) ∧
      ∃ members, read = ofMembers members ∧ List.Forall₂ (fun type p =>
        readOther (if others.isTrue then others else .record []) type = .ok p) abi.otherTypes members := by
  unfold readOthers
  dsimp only
  rw [bind_eq_ok]
  simp only [misusing_eq_ok]
  constructor
  · rintro ⟨parts, hp, h⟩
    split at h
    · cases h
    next known =>
      obtain ⟨members, hm, h⟩ := bind_eq_ok.mp h
      refine ⟨⟨parts, hp, ?_⟩, members, (pure_eq_ok.mp h).symm, mapM_eq_ok.mp hm⟩
      simpa using known
  · rintro ⟨⟨parts, hp, known⟩, members, rfl, each⟩
    refine ⟨parts, hp, ?_⟩
    have none : parts.find? (fun name => !isReferenced abi name) = none := by simpa using known
    rw [none]
    dsimp only
    rw [mapM_eq_ok.mpr each]
    rfl

/-- The records of a type are read of the data that are given for them. -/
theorem exists_of_readOthers {abi : Abi} {others : Datum} {read : List (String × List SuppliedRecord)}
    (h : readOthers abi others = .ok read) {p : String × List SuppliedRecord} (hp : p ∈ read) :
    ∃ type ∈ abi.otherTypes, p.1 = type.name ∧ ∃ data, recordData others type.name = .ok data ∧
      readRecords type ("other_records." ++ type.name) 0 data = .ok p.2 := by
  obtain ⟨-, members, rfl, each⟩ := readOthers_eq_ok.mp h
  obtain ⟨type, ht, made⟩ := exists_of_forall₂ each (mem_of_mem_ofMembers hp)
  obtain ⟨present, -, data, hd, hr, named⟩ := readOther_eq_ok.mp made
  refine ⟨type, ht, named, data, ?_, hr⟩
  cases set : others.isTrue with
  | true => rwa [set, if_pos rfl] at hd
  | false =>
    rw [set] at present
    cases present

end Inputs

/-! ## Runs -/

/-- An output with other marks: the commitments and all else are the same. -/
def Output.remarked (f : Origin → Origin) (o : Output) : Output :=
  { o with
    receiver := o.receiver.map (Value.remarked f)
    result := o.result.map (Value.remarked f) }

def Error.remarked (f : Origin → Origin) : Error → Error
  | .execution failure => .execution (failure.remarked f)
  | error => error

namespace LinkedFunction

def remarkedOutcome (f : Origin → Origin) : Except Error Output → Except Error Output
  | .ok output => .ok (output.remarked f)
  | .error error => .error (error.remarked f)

variable {g : Origin → Origin} {f : LinkedFunction} {inputs inputs' : Inputs}

theorem resultValue_remarked (abi : Abi) (departure : Machine.Departure) :
    resultValue abi (departure.remarked g) =
      Option.map (Value.remarked g) <$> resultValue abi departure := by
  unfold resultValue
  cases abi.returnType with
  | none => rfl
  | some type =>
    have each : ∀ d : Datum, (do return some (← Value.ofDatum type (d.remarked g)) : Except Misuse _) =
        Option.map (Value.remarked g) <$> (do return some (← Value.ofDatum type d)) := by
      intro d
      rw [Value.ofDatum_remarked]
      exact map_bind_eq fun v => rfl
    cases departure with
    | plain => exact each .null
    | value d => exact each d

theorem commitField_remarked (abi : Abi) (salts : List Nat) (receiver : Option Value) (name : String) :
    commitField abi salts (receiver.map (Value.remarked g)) name = commitField abi salts receiver name := by
  unfold commitField
  cases abi.thisType with
  | none => cases receiver <;> rfl
  | some type =>
    cases receiver with
    | none => rfl
    | some v =>
      cases v with
      | struct fields =>
        simp only [Option.map_some, Value.remarked, Value.lookup_remarkedFields]
        cases type.fieldNames.findIdx? (· == name) with
        | none => rfl
        | some index =>
          cases fields.lookup name with
          | none => rfl
          | some v =>
            dsimp only [Option.map_some]
            simp only [Value.commitField_remarked]
      | _ => rfl

theorem granted_remarked (inj : g.Injective) (result : Option Value) :
    (match result.map (Value.remarked g) with
      | some v => v.same (.scalar .boolean (.boolean true))
      | none => false) = match result with
      | some v => v.same (.scalar .boolean (.boolean true))
      | none => false := by
  cases result with
  | none => rfl
  | some v =>
    cases v with
    | scalar p d => exact congrArg (p == .boolean && ·) (Datum.same_remarked inj d (.boolean true))
    | _ => rfl

/-- What is made of an end with other marks. -/
theorem output_remarked (inj : g.Injective) (salts : inputs'.salts = inputs.salts)
    (departure : Machine.Departure) (m : Machine) : f.output inputs' (departure.remarked g) (m.remarked g) =
      Output.remarked g <$> f.output inputs departure m := by
  have receiver : f.abi.thisType.mapM (fun type => Value.ofDatum type.toTy (m.remarked g).receiver) =
      Option.map (Value.remarked g) <$>
        f.abi.thisType.mapM fun type => Value.ofDatum type.toTy m.receiver := by
    cases f.abi.thisType with
    | none => rfl
    | some type =>
      rw [Option.mapM_some, Option.mapM_some]
      change some <$> Value.ofDatum type.toTy (m.receiver.remarked g) = _
      rw [Value.ofDatum_remarked]
      cases Value.ofDatum type.toTy m.receiver <;> rfl
  rw [output, output, receiver, resultValue_remarked]
  refine map_bind_eq fun receiver => map_bind_eq fun result => ?_
  have hashes : f.abi.dependentNames.mapM (commitField f.abi inputs'.salts
      (receiver.map (Value.remarked g))) =
        f.abi.dependentNames.mapM (commitField f.abi inputs.salts receiver) :=
    mapM_congr fun name _ => by rw [salts, commitField_remarked]
  rw [hashes]
  cases f.abi.dependentNames.mapM (commitField f.abi inputs.salts receiver) with
  | error why => rfl
  | ok hashes =>
    exact congrArg (fun granted => Except.ok (Output.mk (receiver.map (Value.remarked g))
      (result.map (Value.remarked g)) hashes (f.abi.isReadAuth && granted) m.steps))
      (granted_remarked inj result)

/-- A run on inputs whose records are the same but for marks yields the same but for marks. -/
theorem run_remarked (recasts : Origin.Recasts g) (unmarked : f.code.Unmarked g)
    (described : inputs.abi = f.abi) (described' : inputs'.abi = f.abi)
    (salts : inputs'.salts = inputs.salts) {records records' : List (String × List (Bytes × Datum))}
    (found : recordsOf inputs.others = .ok records) (found' : recordsOf inputs'.others = .ok records')
    (same : Surroundings.Remarked g ⟨inputs.callerKey, records⟩ ⟨inputs'.callerKey, records'⟩)
    (start : f.machine inputs' = (f.machine inputs).remarked g) (limit : Nat) :
    f.run inputs' limit = remarkedOutcome g (f.run inputs limit) := by
  have ended : Machine.run f.code ⟨inputs'.callerKey, records'⟩ limit (f.machine inputs') =
      (Machine.run f.code ⟨inputs.callerKey, records⟩ limit (f.machine inputs)).remarked g :=
    start ▸ Machine.runFrom_remarked recasts same unmarked _ _ _
  rcases hr : Machine.run f.code ⟨inputs.callerKey, records⟩ limit (f.machine inputs) with ⟨outcome, last⟩
  rw [hr] at ended
  rw [run_of_ended described found hr, run_of_ended described' found' ended]
  cases outcome with
  | error failure => rfl
  | ok departure =>
    dsimp only
    rw [output_remarked recasts.injective salts]
    cases f.output inputs departure last <;> rfl

end LinkedFunction

end Covenant
