import Covenant.Proofs.Machine.Frame
import Covenant.Proofs.Run.Minimal
import Covenant.Proofs.Run.Outputs
import Covenant.Proofs.Statement.Uses
/-!
What a run leaves of its receiver, and the commitments to it.

* `Value.ofFields_eq_ok`: the values that are made of a record are those of its members;
* `LinkedFunction.Commits`: a commitment to the value of a field under the salt at its place;
* `runs_touch_only_what_they_store`: a run that succeeds leaves all other fields as they were given, and
  commits to those that the outcome depends on;
* `doubled_field_is_merged`: why the values of its types are those whose structs name each field once.
-/

namespace Covenant

open Machine
open Value (FieldsOf)

/-! ## Values of a record -/

namespace Value

theorem memberOf_eq (name : String) (d : Datum) : memberOf name d = d.member name := by
  cases d <;> rfl

/-- The values of a record, field by field. -/
theorem ofFields_eq_ok {types : List (String × Ty)} {d : Datum} {fields : List (String × Value)} :
    ofFields types d = .ok fields ↔ List.Forall₂ (fun (t : String × Ty) f => t.1 = f.1 ∧
      ∃ part, d.member t.1 = .ok part ∧ ofDatum t.2 part = .ok f.2) types fields := by
  induction types generalizing fields with
  | nil =>
    rw [ofFields, List.forall₂_nil_left_iff, Except.ok.injEq]
    exact eq_comm
  | cons t rest ih =>
    obtain ⟨name, type⟩ := t
    simp only [ofFields, memberOf_eq, bind_eq_ok, pure_eq_ok, ih, List.forall₂_cons_left_iff]
    constructor
    · rintro ⟨part, held, v, made, others, each, rfl⟩
      exact ⟨(name, v), others, ⟨rfl, part, held, made⟩, each, rfl⟩
    · rintro ⟨⟨other, v⟩, others, ⟨same, part, held, made⟩, each, rfl⟩
      cases same
      exact ⟨part, held, v, made, others, each, rfl⟩

/-- A field of a record whose member is the datum of a value of its type has this value again. -/
theorem lookup_ofFields {types : List (String × Ty)} (nodup : (types.map Prod.fst).Nodup)
    (distinct : ∀ t ∈ types, t.2.Distinct) {d : Datum} {left given : List (String × Value)}
    (made : ofFields types d = .ok left) (typed : FieldsOf types given) {name : String}
    (same : ∀ v, given.lookup name = some v → d.member name = .ok v.toDatum) :
    left.lookup name = given.lookup name := by
  have each := ofFields_eq_ok.mp made
  cases found : left.lookup name with
  | none =>
    have names : left.map Prod.fst = given.map Prod.fst :=
      (map_eq_of_forall₂ (each.imp fun _ _ h => h.1)).symm.trans typed.names.symm
    rw [lookup_eq_none_iff, names, ← lookup_eq_none_iff] at found
    exact found.symm
  | some v =>
    obtain ⟨⟨own, type⟩, declared, here, part, held, made⟩ := exists_of_forall₂ each (mem_of_lookup found)
    obtain rfl : own = name := here
    obtain ⟨w, hw, isOf⟩ := typed.lookup (lookup_of_mem nodup declared)
    cases held.symm.trans (same w hw)
    have again := isOf.ofDatum_toDatum (isOf.distinct (distinct _ declared))
    cases made.symm.trans again
    exact hw.symm

end Value

/-! ## Commitments -/

namespace LinkedFunction

/-- The commitment to the value of a field, under the salt at the place where the type declares it. -/
def Commits (contract : String) (type : RecordType) (salts : List Nat) (fields : List (String × Value))
    (name : String) (words : Value.Words) : Prop :=
  ∃ (index salt : Nat) (v : Value), type.fieldNames[index]? = some name ∧ fields[index]? = some (name, v) ∧
    salts[index]? = some salt ∧ v.commitField contract name salt = .ok words

theorem commits_of_commitField {abi : Abi} {type : RecordType} (this : abi.thisType = some type)
    (nodup : type.fieldNames.Nodup) {salts : List Nat} {fields : List (String × Value)}
    (names : fields.map Prod.fst = type.fieldNames) {name : String} {words : Value.Words}
    (h : commitField abi salts (some (.struct fields)) name = .ok words) :
    Commits abi.contract type salts fields name words := by
  unfold commitField at h
  rw [this] at h
  dsimp only at h
  split at h
  next index v place value =>
    split at h
    next salt salted =>
      obtain ⟨inside, here, -⟩ := List.findIdx?_eq_some_iff_getElem.mp place
      have declared : type.fieldNames[index]? = some name := by
        rw [List.getElem?_eq_getElem inside, beq_iff_eq.mp here]
      -- the field of this name stands where the type declares it, since names are different
      have named : (fields.map Prod.fst)[index]? = some name := names ▸ declared
      rw [List.getElem?_map, Option.map_eq_some_iff] at named
      obtain ⟨⟨own, w⟩, found, rfl⟩ := named
      have held := lookup_of_mem (names ▸ nodup) (List.mem_of_getElem? found)
      obtain rfl : w = v := Option.some.inj (held.symm.trans value)
      exact ⟨index, salt, w, declared, found, salted, h⟩
    next => cases h
  next => cases h

/-- What a run yields when its receiver has a type. -/
theorem output_eq_ok {f : LinkedFunction} {type : RecordType} (this : f.abi.thisType = some type)
    {inputs : Inputs} {departure : Departure} {m : Machine} {output : Output}
    (h : f.output inputs departure m = .ok output) : ∃ left,
      Value.ofFields type.fields m.receiver = .ok left ∧ output.receiver = some (.struct left) ∧
      List.Forall₂ (fun name words => commitField f.abi inputs.salts (some (.struct left)) name = .ok words)
        f.abi.dependentNames output.hashes := by
  unfold LinkedFunction.output at h
  rw [this, Option.mapM_some] at h
  obtain ⟨receiver, made, h⟩ := bind_eq_ok.mp h
  obtain ⟨result, -, h⟩ := bind_eq_ok.mp h
  obtain ⟨hashes, hh, h⟩ := bind_eq_ok.mp h
  obtain rfl := pure_eq_ok.mp h
  obtain ⟨v, hv, rfl⟩ := map_eq_ok.mp made
  rw [RecordType.toTy, Value.ofDatum] at hv
  obtain ⟨left, hl, hv⟩ := bind_eq_ok.mp hv
  obtain rfl := pure_eq_ok.mp hv
  exact ⟨left, hl, rfl, mapM_eq_ok.mp hh⟩

end LinkedFunction

/-- A run of a compiled function that succeeds leaves a receiver with just the fields of its type, in
order, and each field that no instruction has stored is as it was given. The commitments are those to the
fields that the outcome depends on, in this order, each under the salt at the place of the field in the type.
A value of any type is made again of the datum that the machine holds of it, if its structs name each field
once, as those of all types that are compiled do. -/
theorem runs_touch_only_what_they_store {program : Program} {contract function : String} {c : Compiled}
    (hc : program.compile contract function = .ok c) {code : LinkedCode}
    (linked : c.code.link c.abi c.header = .ok code) {call : Call} {inputs : Inputs}
    (accepted : Inputs.ofCall c.abi call = .ok inputs) {fingerprint : String} {limit : Nat}
    {output : Output}
    (ran : (⟨c.abi, c.header, code, fingerprint⟩ : LinkedFunction).run inputs limit = .ok output) :
    (∃ type records given left, c.abi.thisType = some type ∧ type.fieldNames.Nodup ∧
      LinkedFunction.recordsOf inputs.others = .ok records ∧ inputs.receiver = some given ∧
      output.receiver = some (.struct left) ∧ left.map Prod.fst = type.fieldNames ∧
      (∀ name, ¬ Stores code ⟨inputs.callerKey, records⟩
          ((⟨c.abi, c.header, code, fingerprint⟩ : LinkedFunction).machine inputs) name →
        left.lookup name = given.lookup name) ∧
      List.Forall₂ (LinkedFunction.Commits c.abi.contract type inputs.salts left)
        c.abi.dependentNames output.hashes) ∧
    ∀ (type : Ty) (v : Value), v.IsOf type → v.Distinct → Value.ofDatum type v.toDatum = .ok v := by
  refine ⟨?_, fun type v isOf distinct => isOf.ofDatum_toDatum distinct⟩
  obtain ⟨schema, record, -, describes, declared, known⟩ := Program.describes_of_compile hc
  have known := LinkedCode.known_of_link known linked
  obtain ⟨nodup, parts⟩ := Ty.distinct_struct_iff.mp declared.distinct
  obtain ⟨given, receiver, typed⟩ :=
    (Inputs.read_of_ofCall accepted).exists_receiver describes.this nodup
  obtain ⟨records, departure, m, found, ended, made⟩ := LinkedFunction.run_eq_ok ran
  obtain ⟨n, a, reached, departs⟩ := exists_step_of_departs ended
  obtain ⟨left, values, yields, hashes⟩ := LinkedFunction.output_eq_ok describes.this made
  have names : left.map Prod.fst = record.type.fieldNames :=
    (map_eq_of_forall₂ ((Value.ofFields_eq_ok.mp values).imp fun _ _ h => h.1)).symm
  refine ⟨record.type, records, given, left, describes.this, nodup, found, receiver, yields, names,
    fun name kept => ?_, hashes.imp fun _ _ h =>
      LinkedFunction.commits_of_commitField describes.this nodup names h⟩
  refine Value.lookup_ofFields nodup parts values typed fun v hv => ?_
  -- neither the steps before the last one nor this one store the field
  have last : m.receiver.member name = a.receiver.member name :=
    member_of_step known (fun store => kept ⟨n, a, reached, store⟩) departs
  have before := reached.member known fun k b _ hb store => kept ⟨k, b, hb, store⟩
  rw [last, before]
  exact LinkedFunction.machine_member receiver (typed.names ▸ nodup) hv

/-- A deposit stores the balance and the note: the id and the ceiling are left as they were given. -/
theorem deposit_keeps_ceiling : ∃ program c code inputs output type given left,
    Program.read depositSource = .ok program ∧ program.compile "Account" "deposit" = .ok c ∧
    c.code.link c.abi c.header = .ok code ∧ Inputs.ofCall c.abi depositCall = .ok inputs ∧
    (⟨c.abi, c.header, code, ""⟩ : LinkedFunction).run inputs 100 = .ok output ∧
    c.abi.thisType = some type ∧ inputs.receiver = some given ∧ output.receiver = some (.struct left) ∧
    left.map Prod.fst = type.fieldNames ∧ left.lookup "id" = given.lookup "id" ∧
    left.lookup "ceiling" = given.lookup "ceiling" ∧
    List.Forall₂ (LinkedFunction.Commits c.abi.contract type inputs.salts left) c.abi.dependentNames
      output.hashes := by
  have runs : (do
      let program ← (Program.read depositSource).toOption
      let c ← (program.compile "Account" "deposit").toOption
      let code ← (c.code.link c.abi c.header).toOption
      let inputs ← (Inputs.ofCall c.abi depositCall).toOption
      let output ← ((⟨c.abi, c.header, code, ""⟩ : LinkedFunction).run inputs 100).toOption
      return output.receiver.isSome && code.toList.all fun i =>
        i.use? != some (.sets "id") && i.use? != some (.sets "ceiling")) = some true := by
    decide +kernel
  simp only [Option.bind_eq_bind, Option.bind_eq_some_iff, toOption_eq_some, Option.pure_def,
    Option.some.injEq, Bool.and_eq_true, List.all_eq_true, bne_iff_ne] at runs
  obtain ⟨program, hp, c, hc, code, linked, inputs, accepted, output, ran, -, spares⟩ := runs
  obtain ⟨⟨type, records, given, left, this, -, -, receiver, yields, names, kept, hashes⟩, -⟩ :=
    runs_touch_only_what_they_store hc linked accepted ran
  have spared : ∀ name, (∀ i ∈ code.toList, i.use? ≠ some (.sets name)) →
      left.lookup name = given.lookup name := by
    intro name never
    apply kept
    rintro ⟨n, a, -, store⟩
    exact never _ (Array.mem_toList_iff.mpr (Array.mem_of_getElem? store)) rfl
  exact ⟨program, c, code, inputs, output, type, given, left, hp, hc, linked, accepted, ran, this, receiver,
    yields, names, spared "id" fun i hi => (spares i hi).1, spared "ceiling" fun i hi => (spares i hi).2,
    hashes⟩

/-- A struct that names a field twice, first for a double and then for one of single precision. -/
def doubledStruct : Ty := .struct "S" [("a", .primitive .f64), ("a", .primitive .f32)]

/-- The machine holds one member for two fields of one name, so that another value is made of it than the
one that was read. -/
theorem doubled_field_is_merged : ∃ v other : Value,
    Value.ofJson "this.s" doubledStruct (.record [("a", .integer 16777217)]) = .ok v ∧
      v.IsOf doubledStruct ∧ Value.ofDatum doubledStruct v.toDatum = .ok other ∧ other ≠ v := by
  have read : Value.ofJson "this.s" doubledStruct (.record [("a", .integer 16777217)]) = .ok (.struct
      [("a", .scalar .f64 (.float (Double.ofInt 16777217))),
        ("a", .scalar .f32 (.float (Double.ofInt 16777216)))]) := rfl
  refine ⟨_, .struct [("a", .scalar .f64 (.float (Double.ofInt 16777216))),
    ("a", .scalar .f32 (.float (Double.ofInt 16777216)))], read, Value.isOf_of_ofJson _ read, rfl, ?_⟩
  intro same
  simp only [Value.struct.injEq, List.cons.injEq, Prod.mk.injEq, Value.scalar.injEq, Datum.float.injEq,
    true_and, and_true] at same
  exact absurd same (by decide +kernel)

end Covenant
