import Covenant.Proofs.Compile.Acceptance
import Covenant.Proofs.Compile.Guard
import Covenant.Proofs.Compile.Jumps
import Covenant.Proofs.Machine.Agreement
import Covenant.Proofs.Directives
import Covenant.Proofs.Run.Commitments
import Covenant.Proofs.Run.Safety
/-!
The fields that a function depends on are enough of its receiver.

* `Program.loads_of_compile`: compiled code loads no other fields;
* `Output.Agrees`, `LinkedFunction.output_agrees`: outputs that differ at most in fields of the receiver
  outside some names, and states that lead to such outputs;
* `minimal_receiver_suffices`: a run on a receiver and one on the receiver with defaults in all other
  fields end in the same way, and commit to the same.
-/

namespace Covenant

open Machine
open Value (FieldsOf)

/-! ## What code loads -/

/-- A compiled function is described by the type of its record and by what its code uses, and has known
instructions only. -/
theorem Program.describes_of_compile {program : Program} {contract function : String} {c : Compiled}
    (hc : program.compile contract function = .ok c) : ∃ schema record,
      Schema.ofProgram program = .ok schema ∧ c.abi.Describes schema record c.code ∧
      record.Declared (program.map (·.name)) ∧ ∀ i, .instruction i ∈ c.code → i.isKnown = true := by
  obtain ⟨schema, record, policy, hs, hr, -, made⟩ := Program.cases_of_compile hc
  obtain ⟨member, -⟩ := Schema.mem_of_find? (Schema.record_eq_ok.mp hr)
  have declared := (Schema.declared_of_ofProgram hs member).2
  refine ⟨schema, record, hs, ?_⟩
  rcases made with ⟨-, rfl⟩ | ⟨declaration, f, -, -, code, abi⟩
  · refine ⟨Schema.describes_describe, declared, fun i hi => ?_⟩
    rcases List.mem_append.mp hi with own | last
    · exact (policy.ordinary_code 0 (List.Subset.refl _) i own).1
    · cases List.mem_singleton.mp last
      rfl
  · rw [code, abi]
    exact ⟨Schema.describes_describe, declared, fun i => f.isKnown_of_mem_code⟩

/-- Compiled code loads the fields only that it is said to depend on. -/
theorem Program.loads_of_compile {program : Program} {contract function : String} {c : Compiled}
    (hc : program.compile contract function = .ok c) {code : LinkedCode}
    (linked : c.code.link c.abi c.header = .ok code) : code.Loads (· ∈ c.abi.dependentNames) := by
  obtain ⟨schema, record, -, describes, -, known⟩ := Program.describes_of_compile hc
  obtain ⟨labels, lines, -, all, rfl, -⟩ := Code.link_eq_ok linked
  intro place j hj
  rw [List.getElem?_toArray] at hj
  obtain ⟨i, hi, linked⟩ := Code.exists_instruction_of_linkAll all (List.mem_of_getElem? hj)
  refine ⟨(Code.linkInstruction_shape linked).isKnown.trans (known i hi), ?_⟩
  rintro name rfl
  obtain ⟨rfl, field⟩ := Code.eq_of_linkInstruction linked
  rw [describes.this] at field
  obtain ⟨type, held⟩ := Option.isSome_iff_exists.mp field
  exact List.mem_map.mpr ⟨_, describes.dependent hi held, rfl⟩

/-! ## Outputs -/

/-- Outputs that differ at most in fields of the receiver outside some names. -/
structure Output.Agrees (P : String → Prop) (o o' : Output) : Prop where
  result : o'.result = o.result
  hashes : o'.hashes = o.hashes
  readAuth : o'.readAuth = o.readAuth
  steps : o'.steps = o.steps
  receiver : ∃ fields fields', o.receiver = some (.struct fields) ∧
    o'.receiver = some (.struct fields') ∧ ∀ name, P name → fields'.lookup name = fields.lookup name

/-- Records whose fields agree give values that do so, or neither gives one. -/
theorem Value.ofFields_agrees {all types : List (String × Ty)} {P : String → Prop} {fields fields' : Fields}
    (h : Fields.Agree all P fields fields') (sub : types ⊆ all) :
    (∃ why, ofFields types (.record fields) = .error why ∧ ofFields types (.record fields') = .error why) ∨
      ∃ vs vs', ofFields types (.record fields) = .ok vs ∧ ofFields types (.record fields') = .ok vs' ∧
        ∀ name, P name → vs'.lookup name = vs.lookup name := by
  induction types with
  | nil => exact .inr ⟨[], [], rfl, rfl, fun _ _ => rfl⟩
  | cons f rest ih =>
    obtain ⟨name, type⟩ := f
    rw [List.cons_subset] at sub
    -- the first field is made of the same datum, or of two that give values
    have first : (∃ why, (memberOf name (.record fields) >>= ofDatum type) = .error why ∧
          (memberOf name (.record fields') >>= ofDatum type) = .error why) ∨
        ∃ v v', (memberOf name (.record fields) >>= ofDatum type) = .ok v ∧
          (memberOf name (.record fields') >>= ofDatum type) = .ok v' ∧ (P name → v' = v) := by
      rcases h.given _ sub.1 with same | ⟨d, d', v, v', hd, hv, hd', hv'⟩
      · have given : memberOf name (.record fields') = memberOf name (.record fields) := by
          rw [memberOf, memberOf, same]
        rw [given]
        cases memberOf name (.record fields) >>= ofDatum type with
        | error why => exact .inl ⟨why, rfl, rfl⟩
        | ok v => exact .inr ⟨v, v, rfl, rfl, fun _ => rfl⟩
      · simp only [memberOf]
        refine .inr ⟨v, v', by rw [hd]; exact hv, by rw [hd']; exact hv', fun own => ?_⟩
        cases (h.same name own).symm.trans hd' |>.symm.trans hd |> Option.some.inj
        exact Except.ok.inj (hv'.symm.trans hv)
    have unfolds : ∀ all, ofFields ((name, type) :: rest) (.record all) = (do
        let v ← memberOf name (.record all) >>= ofDatum type
        return (name, v) :: (← ofFields rest (.record all))) := by
      intro all
      rw [ofFields, bind_assoc]
    rcases first with ⟨why, e, e'⟩ | ⟨v, v', hv, hv', same⟩
    · exact .inl ⟨why, by rw [unfolds, e]; rfl, by rw [unfolds, e']; rfl⟩
    rcases ih sub.2 with ⟨why, e, e'⟩ | ⟨vs, vs', hvs, hvs', others⟩
    · exact .inl ⟨why, by rw [unfolds, hv, ok_bind, e]; rfl, by rw [unfolds, hv', ok_bind, e']; rfl⟩
    · refine .inr ⟨(name, v) :: vs, (name, v') :: vs', by rw [unfolds, hv, ok_bind, hvs]; rfl,
        by rw [unfolds, hv', ok_bind, hvs']; rfl, fun n own => ?_⟩
      rw [List.lookup_cons, List.lookup_cons]
      cases here : n == name with
      | true => rw [same (beq_iff_eq.mp here ▸ own)]
      | false => exact others n own

namespace LinkedFunction

theorem commitField_congr (abi : Abi) (salts : List Nat) {fields fields' : List (String × Value)}
    {name : String} (same : fields'.lookup name = fields.lookup name) :
    commitField abi salts (some (.struct fields')) name =
      commitField abi salts (some (.struct fields)) name := by
  unfold commitField
  cases abi.thisType with
  | none => rfl
  | some type => simp only [same]

/-- States that agree on all fields that the outcome depends on lead to outputs that agree, or to none. -/
theorem output_agrees (f : LinkedFunction) {type : RecordType} (this : f.abi.thisType = some type)
    {P : String → Prop} (own : ∀ name ∈ f.abi.dependentNames, P name) {m m' : Machine}
    (h : Machine.Agree type.fields P m m') {inputs inputs' : Inputs} (salts : inputs'.salts = inputs.salts)
    (departure : Departure) :
    (∃ why, f.output inputs departure m = .error why ∧ f.output inputs' departure m' = .error why) ∨
      ∃ o o', f.output inputs departure m = .ok o ∧ f.output inputs' departure m' = .ok o' ∧
        o.Agrees P o' := by
  obtain ⟨fields, fields', receiver, rfl, agree⟩ := h
  rw [output, output, this, Option.mapM_some, Option.mapM_some, receiver, salts, RecordType.toTy,
    Value.ofDatum, Value.ofDatum]
  rcases Value.ofFields_agrees agree (List.Subset.refl _) with ⟨why, e, e'⟩ | ⟨vs, vs', hvs, hvs', same⟩
  · rw [e, e']
    exact .inl ⟨why, rfl, rfl⟩
  rw [hvs, hvs']
  have hashes := mapM_congr fun name here =>
    commitField_congr f.abi inputs.salts (same name (own name here))
  cases resultValue f.abi departure with
  | error why => exact .inl ⟨why, rfl, rfl⟩
  | ok result =>
    simp only [Functor.map, Except.map, ok_bind, pure, Except.pure, hashes]
    cases made : f.abi.dependentNames.mapM (commitField f.abi inputs.salts (some (.struct vs))) with
    | error why => exact .inl ⟨why, rfl, rfl⟩
    | ok words => exact .inr ⟨_, _, rfl, rfl, rfl, rfl, rfl, rfl, vs, vs', rfl, rfl, same⟩

end LinkedFunction

/-! ## Runs -/

def Machine.Stores (code : LinkedCode) (s : Surroundings) (m : Machine) (name : String) : Prop :=
  ∃ n a, Reaches code s m n a ∧ code[a.place]? = some (.storeThis name)

namespace LinkedFunction

variable {f : LinkedFunction} {inputs : Inputs} {type : RecordType} {full : List (String × Value)}

theorem machine_receiver_of_typed (f : LinkedFunction) (inputs : Inputs)
    (nodup : type.fieldNames.Nodup) (typed : FieldsOf type.fields full) :
    (f.machine { inputs with receiver := some full }).receiver = .record (Value.fieldData full) := by
  have names : ((Value.fieldData full).map Prod.fst).Nodup := typed.data_names ▸ nodup
  simp only [machine, Machine.start, Option.map_some, Option.getD_some, ofMembers_of_nodup names]

/-- The machines at the start of a run on a receiver and of one on what is kept of it. -/
theorem machines_agree (distinct : type.toTy.Distinct) (typed : FieldsOf type.fields full) :
    Machine.Agree type.fields (· ∈ f.abi.dependentNames) (f.machine { inputs with receiver := some full })
      (f.machine { inputs with receiver := some (f.abi.minimal type full) }) := by
  obtain ⟨nodup, parts⟩ := Ty.distinct_struct_iff.mp distinct
  have kept := typed.minimal nodup f.abi
  have start : f.machine { inputs with receiver := some (f.abi.minimal type full) } =
      { f.machine { inputs with receiver := some full } with
        receiver := .record (Value.fieldData (f.abi.minimal type full)) } := by
    rw [← machine_receiver_of_typed f inputs nodup kept]
    rfl
  refine ⟨_, _, machine_receiver_of_typed _ _ nodup typed, start, ⟨fun name own => ?_, fun g hg => ?_⟩⟩
  · rw [Value.lookup_fieldData, Value.lookup_fieldData, Abi.lookup_minimal typed.names own]
  · obtain ⟨v, hv, isOf⟩ := typed.lookup (lookup_of_mem nodup hg)
    obtain ⟨v', hv', isOf'⟩ := kept.lookup (lookup_of_mem nodup hg)
    exact .inr ⟨v.toDatum, v'.toDatum, v, v', by rw [Value.lookup_fieldData, hv]; rfl,
      isOf.ofDatum_toDatum (isOf.distinct (parts g hg)), by rw [Value.lookup_fieldData, hv']; rfl,
      isOf'.ofDatum_toDatum (isOf'.distinct (parts g hg))⟩

end LinkedFunction

/-- Whatever is compiled, for each receiver of its type and all else a run can be given, the run and the
one with defaults in all fields that the function does not depend on end with the same outcome after the
same number of steps. When they leave, their receivers agree on each field that the function depends on or
that the run has stored; and they yield outputs that agree so, the commitments among them, or the same
error. -/
theorem minimal_receiver_suffices {program : Program} {contract function : String} {c : Compiled}
    (hc : program.compile contract function = .ok c) {code : LinkedCode}
    (linked : c.code.link c.abi c.header = .ok code) {type : RecordType}
    (this : c.abi.thisType = some type) {full : List (String × Value)}
    (typed : FieldsOf type.fields full) (inputs : Inputs) (fingerprint : String) (limit : Nat) :
    let f : LinkedFunction := ⟨c.abi, c.header, code, fingerprint⟩
    let whole : Inputs := { inputs with receiver := some full }
    let minimal : Inputs := { inputs with receiver := some (c.abi.minimal type full) }
    let counts := fun s name => name ∈ c.abi.dependentNames ∨ Stores code s (f.machine whole) name
    (∀ s, ∃ outcome last last',
      Machine.run code s limit (f.machine whole) = ⟨outcome, last⟩ ∧
      Machine.run code s limit (f.machine minimal) = ⟨outcome, last'⟩ ∧ last'.steps = last.steps ∧
      ∀ departure, outcome = .ok departure → ∀ name, counts s name →
        last'.receiver.member name = last.receiver.member name) ∧
    ((∃ error, f.run whole limit = .error error ∧ f.run minimal limit = .error error) ∨
      ∃ records o o', LinkedFunction.recordsOf inputs.others = .ok records ∧
        f.run whole limit = .ok o ∧ f.run minimal limit = .ok o' ∧
        o.Agrees (counts ⟨inputs.callerKey, records⟩) o') := by
  intro f whole minimal counts
  obtain ⟨schema, record, -, describes, declared, -⟩ := Program.describes_of_compile hc
  cases this.symm.trans describes.this
  have loads := Program.loads_of_compile hc linked
  have start : Machine.Agree record.type.fields (· ∈ c.abi.dependentNames) (f.machine whole)
      (f.machine minimal) := LinkedFunction.machines_agree declared.distinct typed
  have ends : ∀ s, ∃ outcome last last',
      Machine.run code s limit (f.machine whole) = ⟨outcome, last⟩ ∧
      Machine.run code s limit (f.machine minimal) = ⟨outcome, last'⟩ ∧ last'.steps = last.steps ∧
      ∀ departure, outcome = .ok departure → Machine.Agree record.type.fields (counts s) last last' := by
    intro s
    obtain ⟨outcome, last, last', ended, ended', agree, stored⟩ :=
      start.runFrom (s := s) loads (.integer limit) limit
    refine ⟨outcome, last, last', ended, ended', agree.steps, fun departure left => ?_⟩
    exact agree.union fun name ⟨n, a, reached, store⟩ => stored departure left n a name reached store
  refine ⟨fun s => ?_, ?_⟩
  · obtain ⟨outcome, last, last', ended, ended', steps, agree⟩ := ends s
    exact ⟨outcome, last, last', ended, ended', steps, fun departure left name own =>
      (agree departure left).member own⟩
  · by_cases described : inputs.abi = c.abi
    · cases found : LinkedFunction.recordsOf inputs.others with
      | error why =>
        refine .inl ⟨.misuse why, ?_⟩
        simp only [LinkedFunction.run, whole, minimal, f, described, found, ne_eq, not_true_eq_false,
          if_false, and_self]
      | ok records =>
        obtain ⟨outcome, last, last', ended, ended', -, agree⟩ := ends ⟨inputs.callerKey, records⟩
        rw [LinkedFunction.run_of_ended (show whole.abi = f.abi from described) found ended,
          LinkedFunction.run_of_ended (show minimal.abi = f.abi from described) found ended']
        cases outcome with
        | error failure => exact .inl ⟨_, rfl, rfl⟩
        | ok departure =>
          rcases f.output_agrees describes.this (fun name => .inl) (agree departure rfl)
            (show minimal.salts = whole.salts from rfl) departure with
            ⟨why, e, e'⟩ | ⟨o, o', e, e', agrees⟩
          · exact .inl ⟨.misuse why, by simp only [e, e', and_self]⟩
          · exact .inr ⟨records, o, o', rfl, by simp only [e], by simp only [e'], agrees⟩
    · exact .inl ⟨_, if_pos described, if_pos described⟩

/-- A function that changes a field, sets another one that it does not read, and leaves two alone. -/
def depositSource : String :=
  "contract Account \x7b id: string; balance: u32; note: string; ceiling: u32; " ++
  "@call deposit(k: u32) \x7b this.balance += k; this.note = \"paid\"; \x7d \x7d"

def depositCall : Call :=
  { Call.empty with
    receiver := .record
      [("id", .text "a"), ("balance", .integer 5), ("note", .text "new"), ("ceiling", .integer 9)]
    arguments := .list [.integer 2] }

/-- The inputs of this call keep the balance only, and the run on them yields what the run on the whole
record does. -/
theorem deposit_runs_on_minimal_receiver : ∃ program c code inputs type full records o o',
    Program.read depositSource = .ok program ∧ program.compile "Account" "deposit" = .ok c ∧
    c.code.link c.abi c.header = .ok code ∧ Inputs.ofCall c.abi depositCall = .ok inputs ∧
    c.abi.thisType = some type ∧ FieldsOf type.fields full ∧
    inputs.receiver = some (c.abi.minimal type full) ∧
    LinkedFunction.recordsOf inputs.others = .ok records ∧
    (⟨c.abi, c.header, code, ""⟩ : LinkedFunction).run { inputs with receiver := some full } 100 = .ok o ∧
    (⟨c.abi, c.header, code, ""⟩ : LinkedFunction).run inputs 100 = .ok o' ∧
    o.Agrees (fun name => name ∈ c.abi.dependentNames ∨ Stores code ⟨inputs.callerKey, records⟩
      ((⟨c.abi, c.header, code, ""⟩ : LinkedFunction).machine { inputs with receiver := some full }) name)
      o' := by
  have runs : (do
      let program ← (Program.read depositSource).toOption
      let c ← (program.compile "Account" "deposit").toOption
      let code ← (c.code.link c.abi c.header).toOption
      let inputs ← (Inputs.ofCall c.abi depositCall).toOption
      let type ← c.abi.thisType
      let output ← ((⟨c.abi, c.header, code, ""⟩ : LinkedFunction).run inputs 100).toOption
      return c.abi.dependentNames == ["balance"] && output.receiver.isSome) = some true := by
    decide +kernel
  simp only [Option.bind_eq_bind, Option.bind_eq_some_iff, toOption_eq_some, Option.pure_def] at runs
  obtain ⟨program, hp, c, hc, code, linked, inputs, accepted, type, this, output, ran, -⟩ := runs
  obtain ⟨full, typed, given⟩ := (Inputs.read_of_ofCall accepted).exists_minimal this
  have same : { inputs with receiver := some (c.abi.minimal type full) } = inputs := by
    rw [← given]
  obtain ⟨-, ends⟩ := minimal_receiver_suffices hc linked this typed inputs "" 100
  rw [same] at ends
  rcases ends with ⟨error, -, fails⟩ | ⟨records, o, o', found, whole, minimal, agrees⟩
  · cases ran.symm.trans fails
  · exact ⟨program, c, code, inputs, type, full, records, o, o', hp, hc, linked, accepted, this, typed,
      given, found, whole, minimal, agrees⟩

end Covenant
