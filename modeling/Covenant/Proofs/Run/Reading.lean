import Covenant.Proofs.Run.Authorization
import Covenant.Proofs.Run.Commitments
/-!
Who may read a record.

* `MayRead`: the record is public, or the caller satisfies its directive or one of its marked fields;
* `Policy.exists_decides_read`: the policy for readers comes to just this on accepted inputs;
* `LinkedFunction.run_of_reaches`: a run with a budget that is not too small ends as its steps do;
* `read_authorization_is_exact`: the check of who may read yields this truth and leaves the receiver as it
  was.
-/

namespace Covenant

open Code LinkedCode Machine
open Value (FieldsOf)

/-- The caller may read a record: it is public, its directive for readers has no argument or one that the
caller satisfies, or the caller satisfies a field that is marked. -/
def MayRead (schema : Schema) (record : RecordSchema) (inputs : Inputs) : Prop :=
  Directive.has record.declaration.directives "public" = true ∨
  (∃ d, record.declaration.directives.find? (fun d => d.name == "read") = some d ∧
    (d.arguments = [] ∨ ∃ a ∈ d.arguments, a.Satisfied schema record.type inputs)) ∨
  ∃ f ∈ record.declaration.fields, Directive.has f.directives "read" = true ∧
    (DirectiveArgument.path [f.name]).Satisfied schema record.type inputs

/-! ## The policy -/

theorem Policy.combine_of_anyone {policies : List Policy} (h : .anyone ∈ policies) :
    combine policies = .anyone :=
  if_pos (List.any_eq_true.mpr ⟨_, h, rfl⟩)

section
variable {schema : Schema} {record : RecordSchema} {inputs : Inputs} {code : Code}
  {s : Surroundings} {receiver : Datum}

/-- The policy of arguments that may be none comes to whether the caller satisfies one of them. -/
theorem Policy.exists_decides_arguments (reach : inputs.Reach schema record code s receiver)
    (declared : ∀ {r name}, schema.find? name = some r → ∀ f ∈ r.declaration.fields,
      ∃ type, r.type.field? f.name = some type) {arguments : List DirectiveArgument}
    {policies : List Policy}
    (means : List.Forall₂ (DirectiveArgument.Means schema record.type) arguments policies) {n : Nat}
    (lines : ∀ line ∈ (combine policies).code n, line ∈ code) :
    ∃ b, (combine policies).Decides s receiver b ∧
      (b = true ↔ ∃ a ∈ arguments, a.Satisfied schema record.type inputs) := by
  by_cases none : arguments = []
  · subst none
    obtain rfl := List.forall₂_nil_left_iff.mp means
    exact ⟨false, .denied, by simp⟩
  · exact exists_decides_combine reach declared none means lines

/-- The policy for readers comes to whether the caller may read the record. -/
theorem Policy.exists_decides_read (reach : inputs.Reach schema record code s receiver)
    (declared : ∀ {r name}, schema.find? name = some r → ∀ f ∈ r.declaration.fields,
      ∃ type, r.type.field? f.name = some type) {policy : Policy}
    (h : schema.readPolicy record = .ok policy) {n : Nat}
    (lines : ∀ line ∈ policy.code n, line ∈ code) :
    ∃ b, policy.Decides s receiver b ∧ (b = true ↔ MayRead schema record inputs) := by
  obtain ⟨named, marked, rfl, hn, hm⟩ := Schema.readPolicy_eq_ok h
  -- without a condition everybody may read; otherwise all arguments count as those of one directive
  by_cases isPublic : Directive.has record.declaration.directives "public" = true
  · rw [isPublic, if_pos rfl, combine_of_anyone (by simp)]
    exact ⟨true, .anyone, iff_of_true rfl (.inl isPublic)⟩
  rw [if_neg isPublic, List.nil_append] at lines ⊢
  have fields : (∃ f ∈ record.declaration.fields, Directive.has f.directives "read" = true ∧
      (DirectiveArgument.path [f.name]).Satisfied schema record.type inputs) ↔
      ∃ a ∈ (Schema.readerFields record).map fun f => DirectiveArgument.path [f.name],
        a.Satisfied schema record.type inputs := by
    simp [Schema.readerFields, and_assoc]
  rw [MayRead, or_iff_right isPublic, fields]
  split at hn
  next none =>
    subst hn
    obtain ⟨b, decides, satisfied⟩ := exists_decides_arguments reach declared hm lines
    exact ⟨b, decides, by rw [satisfied, none]; simp⟩
  next d found =>
    simp only [found, Option.some.injEq, exists_eq_left']
    rcases Schema.policiesOf_eq_ok hn with ⟨empty, rfl⟩ | ⟨some, means⟩
    · rw [combine_of_anyone (by simp)]
      exact ⟨true, .anyone, iff_of_true rfl (.inl (.inl empty))⟩
    · obtain ⟨b, decides, satisfied⟩ :=
        exists_decides_arguments reach declared (List.rel_append means hm) lines
      refine ⟨b, decides, ?_⟩
      rw [satisfied, or_iff_right some]
      simp only [List.mem_append, or_and_right, exists_or]

end

/-! ## The run -/

/-- What compiling the check of who may read makes. -/
theorem Program.readAuth_of_compile {program : Program} {contract : String} {c : Compiled}
    {schema : Schema} {record : RecordSchema} (compiled : program.compile contract readAuthName = .ok c)
    (hs : Schema.ofProgram program = .ok schema) (hr : schema.record contract = .ok record) :
    ∃ policy, schema.readPolicy record = .ok policy ∧ c = schema.compileReadAuth record policy := by
  obtain ⟨schema', hs', h⟩ := bind_eq_ok.mp compiled
  cases hs.symm.trans hs'
  obtain ⟨record', hr', h⟩ := bind_eq_ok.mp h
  cases hr.symm.trans hr'
  obtain ⟨-, -, h⟩ := bind_eq_ok.mp h
  obtain ⟨policy, hp, h⟩ := bind_eq_ok.mp h
  rw [if_pos rfl] at h
  exact ⟨policy, hp, (pure_eq_ok.mp h).symm⟩

/-- A run with a budget that is not too small ends as its steps do. -/
theorem LinkedFunction.run_of_reaches {f : LinkedFunction} {inputs : Inputs}
    {records : List (String × List (Bytes × Datum))} (described : inputs.abi = f.abi)
    (found : recordsOf inputs.others = .ok records) {k : Nat} {m m' : Machine} {departure : Departure}
    {output : Output}
    (reached : Reaches f.code ⟨inputs.callerKey, records⟩ (f.machine inputs) k m)
    (departs : step f.code ⟨inputs.callerKey, records⟩ m = some (.ok (some departure), m'))
    (made : f.output inputs departure m' = .ok output) :
    (∀ limit < k + 1, f.run inputs limit = .error (.execution (.stepLimit (.integer limit)))) ∧
      ∀ limit, k + 1 ≤ limit → f.run inputs limit = .ok output := by
  refine ⟨fun limit few => ?_, fun limit enough => ?_⟩
  · rw [run_eq_error_iff described found]
    exact runFrom_cutOff reached (by rw [departs]; rfl) (Nat.le_of_lt_succ few) _
  · obtain ⟨left, rfl⟩ := Nat.exists_eq_add_of_le' enough
    refine run_of_departs described found ?_ made
    rw [Machine.run, ← Nat.add_assoc, Nat.add_right_comm, runFrom_of_reaches reached,
      runFrom_departs departs]

/-- Whatever is compiled and whatever inputs are accepted, with enough steps the check of who may read a
record yields whether the caller may, and leaves each field of the receiver as it was. The ids that are
compared are those of texts that UTF-8 can encode. -/
theorem read_authorization_is_exact {program : Program} {contract : String} {c : Compiled}
    {schema : Schema} {record : RecordSchema} {call : Call} {inputs : Inputs} {code : LinkedCode}
    (compiled : program.compile contract readAuthName = .ok c)
    (hs : Schema.ofProgram program = .ok schema) (hr : schema.record contract = .ok record)
    (ids : ∀ t ∈ c.abi.otherTypes, t.field? "id" = some .string)
    (linked : c.code.link c.abi c.header = .ok code)
    (accepted : Inputs.ofCall c.abi call = .ok inputs) (fingerprint : String) :
    let linkedFunction : LinkedFunction := ⟨c.abi, c.header, code, fingerprint⟩
    ∃ fields b k, inputs.receiver = some fields ∧ (b = true ↔ MayRead schema record inputs) ∧
      (∀ limit < k, linkedFunction.run inputs limit =
        .error (.execution (.stepLimit (.integer limit)))) ∧
      ∀ limit, k ≤ limit → ∃ output, linkedFunction.run inputs limit = .ok output ∧
        output.result = some (.scalar .boolean (.boolean b)) ∧ output.readAuth = b ∧
        output.receiver = some (.struct fields) := by
  obtain ⟨policy, made, rfl⟩ := Program.readAuth_of_compile compiled hs hr
  obtain ⟨member, -⟩ := Schema.mem_of_find? (Schema.record_eq_ok.mp hr)
  have read := Inputs.read_of_ofCall accepted
  let c := schema.compileReadAuth record policy
  let linkedFunction : LinkedFunction := ⟨c.abi, c.header, code, fingerprint⟩
  have describes : c.abi.Describes schema record c.code := Schema.describes_describe
  have declared : ∀ {r name}, schema.find? name = some r → ∀ f ∈ r.declaration.fields,
      ∃ type, r.type.field? f.name = some type := fun known f hf =>
    (Schema.declared_of_ofProgram hs (Schema.mem_of_find? known).1).2.field hf
  obtain ⟨records, found, reach⟩ := read.exists_reach describes hs member ids linkedFunction
  obtain ⟨b, decides, may⟩ := Policy.exists_decides_read reach declared made
    fun line h => List.mem_append_left _ h
  -- the code of the policy puts the truth on the stack, and the last instruction leaves with it
  obtain ⟨labels, holds, -⟩ := exists_linkage_of_link linked
  obtain ⟨own, leave, -⟩ := Linkage.holds_append.mp holds
  let start := linkedFunction.machine inputs
  obtain ⟨k, walked⟩ := decides.answers 0 _ [] start.locals 0 0 0 own
  let ended : Machine := ⟨[], start.locals, start.receiver, 0 + size (policy.code 0) + 1, 0 + k + 1, 0⟩
  have departs : step code ⟨inputs.callerKey, records⟩
      ⟨[.boolean b], start.locals, start.receiver, 0 + size (policy.code 0), 0 + k, 0⟩ =
        some (.ok (some (.value (.boolean b))), ended) := Linkage.step_leaveValue leave
  -- the receiver is still that of the start, of which the value of its type is made again
  have distinct := (Schema.declared_of_ofProgram hs member).2
  obtain ⟨fields, given, typed⟩ := read.exists_receiver describes.this distinct.nodup
  have same : start.receiver = (Value.struct fields).toDatum := by
    simp [start, LinkedFunction.machine, Machine.start, given, Value.toDatum]
  have whole : (Value.struct fields).IsOf record.type.toTy := .struct typed
  have left := whole.ofDatum_toDatum (whole.distinct distinct.distinct)
  rw [← same] at left
  have own : ∀ name ∈ c.abi.dependentNames, name ∈ record.type.fieldNames := by
    intro name h
    obtain ⟨⟨name, type⟩, hf, rfl⟩ := List.mem_map.mp h
    exact exists_lookup_iff.mp ⟨type, describes.own hf⟩
  obtain ⟨output, yields, receiver, result, -, granted⟩ :=
    LinkedFunction.exists_output (f := linkedFunction) read describes.this own
      (.value (.boolean b)) ended left typed.names (Value.writable_of_fieldsOf fields typed) rfl
  obtain ⟨cutOff, ends⟩ := LinkedFunction.run_of_reaches (f := linkedFunction) read.described found
    walked.reaches departs yields
  refine ⟨fields, b, k + 1, given, may, cutOff, fun limit enough =>
    ⟨output, ends limit enough, result, ?_, receiver⟩⟩
  have isReadAuth : c.abi.isReadAuth = true := beq_self_eq_true readAuthName
  rw [granted, isReadAuth]
  cases b <;> rfl

/-- A record that the delegate of a record it refers to may read, and its owner. -/
def memoSource : String :=
  "contract Team \x7b id: string; @delegate lead: PublicKey; \x7d " ++
  "@read(team) contract Memo \x7b team: Team; @read owner: PublicKey; text: string; \x7d"

def memoOwner : Key :=
  ⟨⟨0x79be667ef9dcbbac55a06295ce870b07029bfcdb2dce28d959f2815b16f81798, by decide⟩,
    ⟨0x483ada7726a3c4655da4fbfc0e1108a8fd17b448a68554199c47d08ffb10d4b8, by decide⟩⟩

def memoCall : Call :=
  { Call.empty with
    callerKey := .record memoOwner.toRecord
    receiver := .record
      [("team", .text "t"), ("owner", .record memoOwner.toRecord), ("text", .text "read me")]
    others := .record [("Team", .list [.record [("id", .text "t"), ("lead", .null)]])] }

/-- The owner may read, although the delegate is another one. -/
theorem owner_may_read : ∃ program schema record c code inputs output,
    Program.read memoSource = .ok program ∧ Schema.ofProgram program = .ok schema ∧
    schema.record "Memo" = .ok record ∧ program.compile "Memo" readAuthName = .ok c ∧
    c.code.link c.abi c.header = .ok code ∧ Inputs.ofCall c.abi memoCall = .ok inputs ∧
    LinkedFunction.run ⟨c.abi, c.header, code, ""⟩ inputs 100 = .ok output ∧ output.readAuth = true ∧
    output.result = some (.scalar .boolean (.boolean true)) ∧
    output.receiver = inputs.receiver.map .struct ∧ MayRead schema record inputs := by
  have runs : (do
      let program ← (Program.read memoSource).toOption
      let schema ← (Schema.ofProgram program).toOption
      let record ← (schema.record "Memo").toOption
      let c ← (program.compile "Memo" readAuthName).toOption
      let code ← (c.code.link c.abi c.header).toOption
      let inputs ← (Inputs.ofCall c.abi memoCall).toOption
      let output ← (LinkedFunction.run ⟨c.abi, c.header, code, ""⟩ inputs 100).toOption
      return (c.abi.otherTypes.all fun t => t.field? "id" == some .string) && output.readAuth) =
        some true := by decide +kernel
  simp only [Option.bind_eq_bind, Option.bind_eq_some_iff, toOption_eq_some, Option.pure_def,
    Option.some.injEq, Bool.and_eq_true, List.all_eq_true, beq_iff_eq] at runs
  obtain ⟨program, hp, schema, hs, record, hr, c, compiled, code, linked, inputs, accepted, output, ran,
    ids, granted⟩ := runs
  obtain ⟨fields, b, k, given, may, cutOff, ends⟩ :=
    read_authorization_is_exact compiled hs hr ids linked accepted ""
  have enough : k ≤ 100 := by
    refine Nat.le_of_not_lt fun few => ?_
    cases ran.symm.trans (cutOff 100 few)
  obtain ⟨output', ran', result, readAuth, receiver⟩ := ends 100 enough
  cases ran.symm.trans ran'
  obtain rfl : b = true := readAuth.symm.trans granted
  exact ⟨program, schema, record, c, code, inputs, output, hp, hs, hr, compiled, linked, accepted, ran,
    granted, result, by rw [receiver, given]; rfl, may.mp rfl⟩

end Covenant
