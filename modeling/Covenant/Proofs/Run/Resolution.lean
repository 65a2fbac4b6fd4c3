import Covenant.Proofs.Machine.Loaded
import Covenant.Proofs.Run.Conformance
import Covenant.Proofs.Run.Lookup
import Covenant.Proofs.Run.Minimal
import Covenant.Proofs.Statement.Uses
/-!
References that have been checked stand for records when a run follows them.

* `Inputs.Read.not_required`: an empty reference that is accepted is not one that the function requires;
* `Inputs.Read.exists_recordOf`: every other reference in a field that the function depends on stands for
  a supplied record;
* `checked_references_resolve`: so a run finds a record for each reference that it has loaded from a field.
-/

namespace Covenant

open Machine
open Value (FieldsOf)

theorem Machine.Loaded.exists_load {code : LinkedCode} {s : Surroundings} {start m : Machine}
    {field : String} {height : Nat} (h : Loaded code s start field m height) :
    ∃ place : Nat, code[place]? = some (.loadThis field) := by
  induction h with
  | load _ _ here _ => exact ⟨_, here⟩
  | stay _ _ _ _ ih => exact ih
  | copy _ _ _ _ _ ih => exact ih

theorem Abi.exists_otherType {abi : Abi} {contract : String} (h : (abi.otherType? contract).isSome = true) :
    ∃ type ∈ abi.otherTypes, type.name = contract := by
  obtain ⟨type, found⟩ := Option.isSome_iff_exists.mp h
  have named := List.find?_some found
  exact ⟨type, List.mem_of_find?_eq_some found, beq_iff_eq.mp named⟩

/-! ## Checked references -/

namespace Inputs.Read

variable {abi : Abi} {call : Call} {inputs : Inputs} {fields : List (String × Value)}
  {name contract : String} {records : List SuppliedRecord}

/-- An empty reference to a type of which records are looked up is accepted only where it may be empty. -/
theorem not_required (h : Read abi call inputs) (receiver : inputs.receiver = some fields)
    (dependent : (name, .reference contract) ∈ abi.dependentFields)
    (supplied : inputs.others.lookup contract = some records)
    (held : fields.lookup name = some (.reference (.bytes []))) : name ∉ abi.requiredReferences := by
  intro required
  have checked := h.references fields receiver _ dependent
  simp only [checkReference, supplied, held, if_true, List.contains_iff_mem.mpr required] at checked
  cases checked

/-- A reference that is not empty stands for a record in a run. -/
theorem exists_recordOf (h : Read abi call inputs) (receiver : inputs.receiver = some fields)
    (dependent : (name, .reference contract) ∈ abi.dependentFields)
    (supplied : inputs.others.lookup contract = some records) {id : Bytes}
    (held : fields.lookup name = some (.reference (.bytes id))) (set : id ≠ [])
    {all : List (String × List (Bytes × Datum))}
    (found : LinkedFunction.recordsOf inputs.others = .ok all) :
    ∃ r, inputs.record? contract id = some r ∧
      Surroundings.recordOf ⟨inputs.callerKey, all⟩ contract (.bytes id) =
        .ok (.record (ofMembers (Value.fieldData r.value))) := by
  obtain ⟨r, -, known⟩ := h.exists_record receiver dependent supplied held set
  obtain ⟨all', found', each⟩ := LinkedFunction.exists_recordsOf
    (LinkedFunction.exists_recordId_of_recordsOf found)
  cases found.symm.trans found'
  exact ⟨r, known, LinkedFunction.recordOf_eq each known⟩

end Inputs.Read

/-! ## Runs -/

/-- Whatever is compiled and whatever inputs are accepted, when a run comes to follow a reference that it
has loaded from a field of the receiver, and that it had not stored before, the reference is the one that
was supplied. It is empty in a field that the function does not require, or the step finds the supplied
record that it stands for. -/
theorem checked_references_resolve {source : String} {program : Program} {contract function : String}
    {c : Compiled} (hp : Program.read source = .ok program)
    (hc : program.compile contract function = .ok c) {code : LinkedCode}
    (linked : c.code.link c.abi c.header = .ok code) {call : Call} {inputs : Inputs}
    (accepted : Inputs.ofCall c.abi call = .ok inputs) {records : List (String × List (Bytes × Datum))}
    (found : LinkedFunction.recordsOf inputs.others = .ok records) {fingerprint field target : String}
    {m : Machine} {height : Nat}
    (loaded : Loaded code ⟨inputs.callerKey, records⟩
      ((⟨c.abi, c.header, code, fingerprint⟩ : LinkedFunction).machine inputs) field m height)
    (top : m.stack.length = height + 1) (here : code[m.place]? = some (.deref target)) :
    ∃ given id below, inputs.receiver = some given ∧
      given.lookup field = some (.reference (.bytes id)) ∧ m.stack = .bytes id :: below ∧
      ((id = [] ∧ field ∉ c.abi.requiredReferences) ∨
        ∃ r, inputs.record? target id = some r ∧ step code ⟨inputs.callerKey, records⟩ m =
          some (.ok none, { m with
            stack := .record (ofMembers (Value.fieldData r.value)) :: below
            place := m.place + 1
            steps := m.steps + 1 })) := by
  have read := Inputs.read_of_ofCall accepted
  obtain ⟨l, -, fits⟩ := Program.fits_of_compile hp hc
  obtain ⟨labels, levels, typed, first⟩ := fits.exists_levels linked
  have loads := Program.loads_of_compile hc linked
  have nodup : l.this.fieldNames.Nodup := (Ty.distinct_struct_iff.mp fits.distinct).1
  -- the type of the field is the one that the instruction follows
  obtain ⟨type, types, belowTypes, declared, level, count, length, bottom⟩ :=
    loaded.exists_type typed first rfl
  obtain rfl : type :: belowTypes = types := bottom.eq_of_length (by rw [count, top, ← length]; rfl)
  obtain ⟨i, j, made, linked', here', makes, -⟩ := typed _ _ level
  obtain rfl := Option.some.inj (here.symm.trans here')
  obtain ⟨rfl, described⟩ : i = .deref target ∧ (c.abi.otherType? target).isSome = true :=
    Code.eq_of_linkInstruction linked'
  obtain rfl : type = .reference target := by cases makes; rfl
  -- the value is the one that was supplied
  obtain ⟨given, receiver, fields⟩ := read.exists_receiver fits.this nodup
  obtain ⟨v, held, isOf⟩ := fields.lookup declared
  obtain ⟨id, rfl⟩ := isOf.exists_reference
  have member := LinkedFunction.machine_member (f := ⟨c.abi, c.header, code, fingerprint⟩) receiver
    (fields.names ▸ nodup) held
  obtain ⟨d, below, value, length, bottom⟩ := loaded.exists_value fun place i h => (loads place i h).1
  cases member.symm.trans value
  have stack : .bytes id :: below = m.stack := bottom.eq_of_length (by rw [top, ← length]; rfl)
  refine ⟨given, id, below, receiver, held, stack.symm, ?_⟩
  -- the field is one that the function depends on, and the record one that it looks up
  have dependent : (field, .reference target) ∈ c.abi.dependentFields := by
    obtain ⟨schema, record, -, describes, -⟩ := Program.describes_of_compile hc
    obtain ⟨place, load⟩ := loaded.exists_load
    obtain ⟨⟨field, type⟩, hf, rfl⟩ := List.mem_map.mp ((loads place _ load).2 field rfl)
    have this : record.type = l.this := Option.some.inj (describes.this.symm.trans fits.this)
    have own := describes.own hf
    rw [this] at own
    cases own.symm.trans declared
    exact hf
  obtain ⟨looked, ht, rfl⟩ := Abi.exists_otherType described
  obtain ⟨supplied, there, -⟩ := read.exists_records ht fun t h same =>
    Program.single_of_compile hp hc t h looked ht same
  by_cases empty : id = []
  · subst empty
    exact .inl ⟨rfl, read.not_required receiver dependent there held⟩
  · obtain ⟨r, known, stands⟩ := read.exists_recordOf receiver dependent there held empty found
    refine .inr ⟨r, known, ?_⟩
    obtain ⟨st, locals, receiver, place, steps, computed⟩ := m
    obtain rfl : .bytes id :: below = st := stack
    rw [step_of_instruction here, execute_deref, stands]
    rfl

/-- The second step of a payment loads the reference to the bank, and the third one follows it. -/
theorem bank_resolves : ∃ program c code inputs records m given id below r,
    Program.read paySource = .ok program ∧ program.compile "Account" "pay" = .ok c ∧
    c.code.link c.abi c.header = .ok code ∧ Inputs.ofCall c.abi payCall = .ok inputs ∧
    LinkedFunction.recordsOf inputs.others = .ok records ∧
    Loaded code ⟨inputs.callerKey, records⟩
      ((⟨c.abi, c.header, code, ""⟩ : LinkedFunction).machine inputs) "bank" m 1 ∧
    code[m.place]? = some (.deref "Bank") ∧ inputs.receiver = some given ∧
    given.lookup "bank" = some (.reference (.bytes id)) ∧ m.stack = .bytes id :: below ∧
    inputs.record? "Bank" id = some r ∧ step code ⟨inputs.callerKey, records⟩ m =
      some (.ok none, { m with
        stack := .record (ofMembers (Value.fieldData r.value)) :: below
        place := m.place + 1
        steps := m.steps + 1 }) := by
  have runs : (do
      let program ← (Program.read paySource).toOption
      let c ← (program.compile "Account" "pay").toOption
      let code ← (c.code.link c.abi c.header).toOption
      let inputs ← (Inputs.ofCall c.abi payCall).toOption
      let records ← (LinkedFunction.recordsOf inputs.others).toOption
      let start := (⟨c.abi, c.header, code, ""⟩ : LinkedFunction).machine inputs
      let a ← after code ⟨inputs.callerKey, records⟩ 1 start
      let m ← after code ⟨inputs.callerKey, records⟩ 1 a
      return c.abi.requiredReferences == ["bank"] && a.stack.length == 1 && m.stack.length == 2 &&
        code[start.place]?.bind Instruction.use? == none &&
        code[a.place]?.bind Instruction.use? == some (.reads "bank") &&
        code[m.place]?.bind Instruction.use? == some (.follows "Bank")) = some true := by
    decide +kernel
  simp only [Option.bind_eq_bind, Option.bind_eq_some_iff, toOption_eq_some, Option.pure_def,
    Option.some.injEq, Bool.and_eq_true, beq_iff_eq] at runs
  obtain ⟨program, hp, c, hc, code, linked, inputs, accepted, records, found, a, ha, m, hm,
    ⟨⟨⟨⟨required, height⟩, top⟩, first⟩, i, load, reads⟩, j, deref, follows⟩ := runs
  obtain rfl := Instruction.use?_eq_reads.mp reads
  obtain rfl := Instruction.use?_eq_follows.mp follows
  have hs : step code ⟨inputs.callerKey, records⟩ a = some (.ok none, m) := by
    cases reaches_iff_after.mpr hm with
    | next hs reached =>
      cases reached
      exact hs
  have loaded : Loaded code ⟨inputs.callerKey, records⟩
      ((⟨c.abi, c.header, code, ""⟩ : LinkedFunction).machine inputs) "bank" m a.stack.length := by
    refine .load (reaches_iff_after.mpr ha) (fun k b early hb => ?_) load hs
    obtain rfl : k = 0 := by omega
    cases hb
    intro store
    rw [store] at first
    cases first
  rw [height] at loaded
  obtain ⟨given, id, below, receiver, held, stack, resolves⟩ :=
    checked_references_resolve hp hc linked accepted found loaded top deref
  rcases resolves with ⟨-, empty⟩ | ⟨r, known, stands⟩
  · exact absurd (required ▸ List.mem_singleton_self "bank") empty
  · exact ⟨program, c, code, inputs, records, m, given, id, below, r, hp, hc, linked, accepted, found,
      loaded, deref, receiver, held, stack, known, stands⟩

end Covenant
