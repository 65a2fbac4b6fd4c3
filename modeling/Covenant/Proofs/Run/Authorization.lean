import Covenant.Proofs.Compile.Description
import Covenant.Proofs.Compile.Guard
import Covenant.Proofs.Directives
import Covenant.Proofs.Run.Records
/-!
Who may call a function.

* `DirectiveArgument.Satisfied`, `Authorized`: a caller satisfies an argument of a directive, and may call
  a function;
* `Policy.exists_decides`: the policy that is made of a directive comes to just this on accepted inputs;
* `authorization_is_exact`: a run refuses just the callers who may not call, and starts the body for the
  others with all as it was.
-/

namespace Covenant

open Code LinkedCode Machine
open Value (FieldsOf)

/-- The caller has a key other than the null key, and it is the key that a value holds. -/
def Inputs.CallerIs (inputs : Inputs) (v : Value) : Prop :=
  ∃ k, inputs.callerKey = some k ∧ k.isNull = false ∧ v = .publicKey (.key k)

/-- The caller satisfies an argument of a directive of a record: has its key, or the key that a field
of the receiver holds, or that the delegate field of the record holds which such a field refers to. -/
inductive DirectiveArgument.Satisfied (schema : Schema) (this : RecordType) (inputs : Inputs) :
    DirectiveArgument → Prop
  | key {text : String} {k : Key} (named : Key.ofLiteral text = .ok k)
      (same : inputs.callerKey = some k) : Satisfied schema this inputs (.key text)
  | field {name : String} {fields : List (String × Value)} {v : Value}
      (held : this.field? name = some .publicKey) (receiver : inputs.receiver = some fields)
      (value : fields.lookup name = some v) (same : inputs.CallerIs v) :
      Satisfied schema this inputs (.path [name])
  | delegate {name contract delegateField : String} {record : RecordSchema}
      {fields : List (String × Value)} {id : Bytes} {r : SuppliedRecord} {v : Value}
      (held : this.field? name = some (.reference contract))
      (known : schema.find? contract = some record)
      (marked : record.delegateField = .ok delegateField) (receiver : inputs.receiver = some fields)
      (reference : fields.lookup name = some (.reference (.bytes id))) (set : id ≠ [])
      (found : inputs.record? contract id = some r) (value : r.value.lookup delegateField = some v)
      (same : inputs.CallerIs v) : Satisfied schema this inputs (.path [name])

/-- The caller may call a function: the directive that counts has no argument, or one that the caller
satisfies. -/
def Authorized (schema : Schema) (record : RecordSchema) (function : FunctionDecl)
    (inputs : Inputs) : Prop :=
  ∃ d, Schema.callDirective? record function = some d ∧
    (d.arguments = [] ∨ ∃ a ∈ d.arguments, a.Satisfied schema record.type inputs)

/-! ## Policies -/

theorem keyMatches_caller {s : Surroundings} {d : Datum} : keyMatches s.caller d = true ↔
    ∃ k, s.callerKey = some k ∧ k.isNull = false ∧ d = .key k := by
  unfold Surroundings.caller
  cases s.callerKey with
  | none => simp [keyMatches]
  | some k =>
    cases d with
    | key other =>
      simp only [keyMatches, Datum.eq, Datum.same, Bool.and_eq_true, Bool.not_eq_true', beq_iff_eq,
        Option.some.injEq, Datum.key.injEq, exists_eq_left']
      exact and_congr_right fun _ => eq_comm
    | _ => simp [keyMatches, Datum.eq, Datum.same]

/-- The machine compares keys as it should. -/
theorem Inputs.callerIs_iff {inputs : Inputs} {s : Surroundings}
    (caller : s.callerKey = inputs.callerKey) {type : Ty} {v : Value} (typed : v.IsOf type) :
    keyMatches s.caller v.toDatum = true ↔ inputs.CallerIs v := by
  rw [keyMatches_caller, caller]
  refine exists_congr fun k => and_congr_right fun _ => and_congr_right fun _ => ⟨?_, ?_⟩
  · exact typed.eq_publicKey
  · rintro rfl
    rfl

structure Inputs.Reach (inputs : Inputs) (schema : Schema) (record : RecordSchema) (code : Code)
    (s : Surroundings) (receiver : Datum) : Prop where
  caller : s.callerKey = inputs.callerKey
  /-- fields of the receiver have values of their types, which the machine finds -/
  field : ∀ {name type}, record.type.field? name = some type → ∃ fields v,
    inputs.receiver = some fields ∧ fields.lookup name = some v ∧ v.IsOf type ∧
      receiver.member name = .ok v.toDatum
  /-- references that are set stand for supplied records, which the machine finds -/
  delegate : ∀ {name contract r fields id}, .instruction (.loadThis name) ∈ code →
    .instruction (.deref contract) ∈ code → record.type.field? name = some (.reference contract) →
    schema.find? contract = some r → inputs.receiver = some fields →
    fields.lookup name = some (.reference (.bytes id)) → id ≠ [] →
    ∃ supplied d, inputs.record? contract id = some supplied ∧
      s.recordOf contract (.bytes id) = .ok d ∧ ∀ {name type}, r.type.field? name = some type →
        ∃ v, supplied.value.lookup name = some v ∧ v.IsOf type ∧ d.member name = .ok v.toDatum

namespace DirectiveArgument

section Satisfied

variable {schema : Schema} {this : RecordType} {inputs : Inputs} {name contract : String}
variable {fields : List (String × Value)}

theorem satisfied_key_iff {text : String} {k : Key} (named : Key.ofLiteral text = .ok k) :
    (key text).Satisfied schema this inputs ↔ inputs.callerKey = some k := by
  refine ⟨fun satisfied => ?_, .key named⟩
  cases satisfied with
  | key named' same =>
    cases named.symm.trans named'
    exact same

theorem satisfied_field_iff {v : Value} (held : this.field? name = some .publicKey)
    (receiver : inputs.receiver = some fields) (value : fields.lookup name = some v) :
    (path [name]).Satisfied schema this inputs ↔ inputs.CallerIs v := by
  refine ⟨fun satisfied => ?_, .field held receiver value⟩
  cases satisfied with
  | field _ receiver' value' same =>
    cases receiver.symm.trans receiver'
    cases value.symm.trans value'
    exact same
  | delegate held' => cases held.symm.trans held'

/-- A reference that is not set authorizes nobody. -/
theorem not_satisfied_of_unset (held : this.field? name = some (.reference contract))
    (receiver : inputs.receiver = some fields)
    (value : fields.lookup name = some (.reference (.bytes []))) :
    ¬ (path [name]).Satisfied schema this inputs := by
  intro satisfied
  cases satisfied with
  | field held' => cases held.symm.trans held'
  | delegate _ _ _ receiver' value' set =>
    cases receiver.symm.trans receiver'
    cases value.symm.trans value'
    exact set rfl

theorem satisfied_delegate_iff {delegateField : String} {record : RecordSchema} {id : Bytes}
    {r : SuppliedRecord} {v : Value} (held : this.field? name = some (.reference contract))
    (known : schema.find? contract = some record)
    (marked : record.delegateField = .ok delegateField) (receiver : inputs.receiver = some fields)
    (value : fields.lookup name = some (.reference (.bytes id))) (set : id ≠ [])
    (found : inputs.record? contract id = some r) (holds : r.value.lookup delegateField = some v) :
    (path [name]).Satisfied schema this inputs ↔ inputs.CallerIs v := by
  refine ⟨fun satisfied => ?_, .delegate held known marked receiver value set found holds⟩
  cases satisfied with
  | field held' => cases held.symm.trans held'
  | delegate held' known' marked' receiver' value' _ found' holds' same =>
    cases held.symm.trans held'
    cases known.symm.trans known'
    cases marked.symm.trans marked'
    cases receiver.symm.trans receiver'
    cases value.symm.trans value'
    cases found.symm.trans found'
    cases holds.symm.trans holds'
    exact same

end Satisfied

/-- The policy of an argument comes to whether the caller satisfies the argument. -/
theorem Means.exists_decides {schema : Schema} {record : RecordSchema}
    {inputs : Inputs} {code : Code} {s : Surroundings} {receiver : Datum}
    (reach : inputs.Reach schema record code s receiver)
    (declared : ∀ {r name}, schema.find? name = some r → ∀ f ∈ r.declaration.fields,
      ∃ type, r.type.field? f.name = some type)
    {a : DirectiveArgument} {p : Policy} (means : a.Means schema record.type p) {n : Nat}
    (lines : ∀ line ∈ p.code n, line ∈ code) : ∃ b, p.Decides s receiver b ∧
      ∀ a' : DirectiveArgument, a'.Means schema record.type p →
        (b = true ↔ a'.Satisfied schema record.type inputs) := by
  cases means with
  | @key text k named =>
    have point := Key.isPoint_of_ofLiteral named
    refine ⟨_, .key point, ?_⟩
    rintro a' (named' | _ | _)
    rw [satisfied_key_iff named', keyMatches_caller, reach.caller]
    constructor
    · rintro ⟨k', same, -, equal⟩
      cases equal
      exact same
    · exact fun same => ⟨k, same, Key.isNull_of_isPoint point, rfl⟩
  | @field name held =>
    obtain ⟨fields, v, given, value, typed, found⟩ := reach.field held
    refine ⟨_, .field found, ?_⟩
    rintro a' (_ | _ | _)
    rw [satisfied_field_iff held given value, Inputs.callerIs_iff reach.caller typed]
  | @delegate name contract delegateField r held known marked =>
    obtain ⟨fields, v, given, value, typed, found⟩ := reach.field held
    obtain ⟨id, rfl⟩ := typed.exists_reference
    by_cases set : id = []
    · subst set
      refine ⟨_, .unset found rfl, ?_⟩
      rintro a' (_ | _ | _)
      exact ⟨nofun, fun satisfied => absurd satisfied (not_satisfied_of_unset held given value)⟩
    · have load : .instruction (.loadThis name) ∈ code := lines _ (by simp [Policy.code, Line.op])
      have deref : .instruction (.deref contract) ∈ code := lines _ (by simp [Policy.code, Line.op])
      obtain ⟨supplied, d, last, stands, each⟩ :=
        reach.delegate load deref held known given value set
      obtain ⟨f, hf, rfl⟩ := RecordSchema.exists_of_delegateField marked
      obtain ⟨type, declaredType⟩ := declared known f hf
      obtain ⟨v, holds, typed', member⟩ := each declaredType
      have truth : (Value.reference (.bytes id)).toDatum.holds = true := by
        simp [Value.toDatum, Datum.holds, Datum.isTrue, set]
      refine ⟨_, .delegate found truth stands member, ?_⟩
      rintro a' (_ | _ | _)
      rw [satisfied_delegate_iff held known marked given value set last holds,
        Inputs.callerIs_iff reach.caller typed']

end DirectiveArgument

namespace Policy

theorem exists_code_of_mem {policies : List Policy} {p : Policy} (h : p ∈ policies) (n : Nat)
    (satisfied : String) : ∃ m, ∀ line ∈ p.code m, line ∈ codeOfAll n satisfied policies := by
  induction policies generalizing n with
  | nil => cases h
  | cons first rest ih =>
    rw [codeOfAll]
    rcases List.mem_cons.mp h with rfl | later
    · exact ⟨n, fun line hl => by simp [hl]⟩
    · obtain ⟨m, lines⟩ := ih later (n + first.labels)
      exact ⟨m, fun line hl => List.mem_append_right _ (lines line hl)⟩

/-- A policy made of others, none of which allows everybody. -/
theorem combine_cases {policies : List Policy} (some : policies ≠ [])
    (each : ∀ p ∈ policies, p.isAnyone = false) : (∃ p, policies = [p] ∧ combine policies = p) ∨
      combine policies = .anyOf policies := by
  have none : policies.any isAnyone = false := by simpa using each
  unfold combine
  rw [none]
  match policies, some with
  | [p], _ => exact .inl ⟨p, rfl, rfl⟩
  | p :: q :: rest, _ => exact .inr rfl

end Policy

section
variable {schema : Schema} {record : RecordSchema} {inputs : Inputs} {code : Code}
  {s : Surroundings} {receiver : Datum}

theorem DirectiveArgument.isAnyone_of_means {arguments : List DirectiveArgument}
    {policies : List Policy} (some : arguments ≠ [])
    (means : List.Forall₂ (DirectiveArgument.Means schema record.type) arguments policies) :
    policies ≠ [] ∧ ∀ p ∈ policies, p.isAnyone = false := by
  refine ⟨?_, fun p hp => ?_⟩
  · rintro rfl
    exact some (List.forall₂_nil_right_iff.mp means)
  · obtain ⟨a, -, ha⟩ := exists_of_forall₂ means hp
    cases ha <;> rfl

/-- The policy of several arguments comes to whether the caller satisfies one of them. -/
theorem Policy.exists_decides_combine (reach : inputs.Reach schema record code s receiver)
    (declared : ∀ {r name}, schema.find? name = some r → ∀ f ∈ r.declaration.fields,
      ∃ type, r.type.field? f.name = some type) {arguments : List DirectiveArgument}
    {policies : List Policy} (some : arguments ≠ [])
    (means : List.Forall₂ (DirectiveArgument.Means schema record.type) arguments policies) {n : Nat}
    (lines : ∀ line ∈ (combine policies).code n, line ∈ code) :
    ∃ b, (combine policies).Decides s receiver b ∧
      (b = true ↔ ∃ a ∈ arguments, a.Satisfied schema record.type inputs) := by
  obtain ⟨other, each⟩ := DirectiveArgument.isAnyone_of_means some means
  rcases combine_cases other each with ⟨p, rfl, same⟩ | same
  · rw [same] at lines ⊢
    obtain ⟨a, rfl⟩ : ∃ a, arguments = [a] := by
      cases means with
      | cons _ rest =>
        cases rest
        exact ⟨_, rfl⟩
    have ha := (List.forall₂_cons.mp means).1
    obtain ⟨b, decides, satisfied⟩ := ha.exists_decides reach declared lines
    refine ⟨b, decides, ?_⟩
    simpa using satisfied a ha
  · rw [same] at lines ⊢
    have decided : ∀ p ∈ policies, ∃ b, p.Decides s receiver b ∧
        ∀ a : DirectiveArgument, a.Means schema record.type p →
          (b = true ↔ a.Satisfied schema record.type inputs) := by
      intro p hp
      obtain ⟨a, -, ha⟩ := exists_of_forall₂ means hp
      obtain ⟨m, own⟩ := exists_code_of_mem hp (n + 2) (labelName n)
      exact ha.exists_decides reach declared fun line hl =>
        lines line (List.mem_append_left _ (own line hl))
    choose! allows decides satisfied using decided
    refine ⟨_, .anyOf decides, ?_⟩
    rw [List.any_eq_true]
    constructor
    · rintro ⟨p, hp, allowed⟩
      obtain ⟨a, hm, ha⟩ := exists_of_forall₂ means hp
      exact ⟨a, hm, (satisfied p hp a ha).mp allowed⟩
    · rintro ⟨a, hm, holds⟩
      obtain ⟨p, hp, ha⟩ := exists_of_forall₂ means.flip hm
      exact ⟨p, hp, (satisfied p hp a ha).mpr holds⟩

/-- The policy of a function comes to whether the caller may call it. -/
theorem Policy.exists_decides (reach : inputs.Reach schema record code s receiver)
    (declared : ∀ {r name}, schema.find? name = some r → ∀ f ∈ r.declaration.fields,
      ∃ type, r.type.field? f.name = some type) {function : FunctionDecl} {policy : Policy}
    (other : function.isConstructor = false) (h : schema.callPolicy record function = .ok policy)
    {n : Nat} (lines : policy.isAnyone = false → ∀ line ∈ policy.code n, line ∈ code) :
    ∃ b, policy.Decides s receiver b ∧ (b = true ↔ Authorized schema record function inputs) := by
  rcases Schema.callPolicy_eq_ok other h with ⟨none, rfl⟩ | ⟨d, policies, found, hp, rfl⟩
  · refine ⟨false, .denied, nofun, ?_⟩
    rintro ⟨d, found, -⟩
    cases none.symm.trans found
  · have authorized : Authorized schema record function inputs ↔ d.arguments = [] ∨
        ∃ a ∈ d.arguments, a.Satisfied schema record.type inputs :=
      ⟨fun ⟨d', found', h⟩ => by cases found.symm.trans found'; exact h, fun h => ⟨d, found, h⟩⟩
    rw [authorized]
    rcases Schema.policiesOf_eq_ok hp with ⟨empty, rfl⟩ | ⟨some, means⟩
    · exact ⟨true, .anyone, by simp [empty]⟩
    · have plain : (combine policies).isAnyone = false := by
        obtain ⟨other, each⟩ := DirectiveArgument.isAnyone_of_means some means
        rcases combine_cases other each with ⟨p, rfl, same⟩ | same
        · rw [same]
          exact each p (List.mem_singleton_self p)
        · rw [same]
          rfl
      obtain ⟨b, decides, satisfied⟩ := exists_decides_combine reach declared some means (lines plain)
      exact ⟨b, decides, by rw [satisfied, or_iff_right some]⟩

end

/-! ## Accepted inputs -/

/-- A run on accepted inputs finds what policies refer to. -/
theorem Inputs.Read.exists_reach {program : Program} {schema : Schema} {record : RecordSchema}
    {abi : Abi} {call : Call} {inputs : Inputs} {code : Code} (read : Read abi call inputs)
    (describes : abi.Describes schema record code) (hs : Schema.ofProgram program = .ok schema)
    (member : record ∈ schema) (ids : ∀ t ∈ abi.otherTypes, t.field? "id" = some .string)
    (f : LinkedFunction) : ∃ all, LinkedFunction.recordsOf inputs.others = .ok all ∧
      inputs.Reach schema record code ⟨inputs.callerKey, all⟩ (f.machine inputs).receiver := by
  obtain ⟨-, declared⟩ := Schema.declared_of_ofProgram hs member
  obtain ⟨fields, given, typed⟩ := read.exists_receiver describes.this declared.nodup
  have distinct : (fields.map Prod.fst).Nodup := typed.names ▸ declared.nodup
  have named : ∀ p ∈ inputs.others, ∀ r ∈ p.2, ∃ id, recordId r.value = .ok id := by
    rintro ⟨name, records⟩ here r hr
    obtain ⟨type, ht, -, typed⟩ := read.exists_type here
    exact exists_recordId (typed r hr) (ids type ht) rfl
  obtain ⟨all, stand, each⟩ := LinkedFunction.exists_recordsOf named
  refine ⟨all, stand, rfl, fun {name type} held => ?_, ?_⟩
  · obtain ⟨v, value, typed⟩ := typed.lookup held
    exact ⟨fields, v, given, value, typed, LinkedFunction.machine_member given distinct value⟩
  · intro name contract r fields' id load deref held known given' reference set
    cases given.symm.trans given'
    have named : r.type.name = contract := (Schema.mem_of_find? known).2
    have only : ∀ t ∈ abi.otherTypes, t.name = r.type.name → t = r.type := by
      intro t ht same
      obtain ⟨r', known', rfl⟩ := describes.known ht
      rw [same, named, known] at known'
      cases known'
      rfl
    obtain ⟨records, supplied, typed⟩ := read.exists_records (describes.others deref known) only
    rw [named] at supplied
    obtain ⟨last, hl, found⟩ := read.exists_record given (describes.dependent load held) supplied
      reference set
    have typed := typed last hl
    refine ⟨last, _, found, LinkedFunction.recordOf_eq each found, fun {name type} held => ?_⟩
    obtain ⟨v, value, typed'⟩ := typed.lookup held
    have nodup := (Schema.declared_of_ofProgram hs (Schema.mem_of_find? known).1).2.nodup
    exact ⟨v, value, typed', Value.member_record (typed.names ▸ nodup) value⟩

/-! ## Compiled functions -/

theorem Schema.policy_of_check {schema : Schema} {record : RecordSchema} {function : FunctionDecl}
    {f : CheckedFunction} (h : schema.check record function = .ok f) :
    f.isConstructor = function.isConstructor ∧ schema.callPolicy record function = .ok f.policy := by
  obtain ⟨parameters, -, h⟩ := bind_eq_ok.mp h
  obtain ⟨result, -, h⟩ := bind_eq_ok.mp h
  obtain ⟨policy, hp, h⟩ := bind_eq_ok.mp h
  obtain ⟨scope, -, h⟩ := bind_eq_ok.mp h
  obtain ⟨body, -, h⟩ := bind_eq_ok.mp h
  obtain rfl := pure_eq_ok.mp h
  exact ⟨rfl, hp⟩

/-- What compiling a function of a record makes. -/
theorem Program.function_of_compile {program : Program} {contract function : String} {c : Compiled}
    {schema : Schema} {record : RecordSchema} {declaration : FunctionDecl}
    (compiled : program.compile contract function = .ok c)
    (hs : Schema.ofProgram program = .ok schema) (hr : schema.record contract = .ok record)
    (hd : record.function? function = some declaration) (named : function ≠ readAuthName) :
    ∃ f, schema.check record declaration = .ok f ∧ c.code = f.code ∧
      c.abi.Describes schema record f.code := by
  obtain ⟨schema', hs', h⟩ := bind_eq_ok.mp compiled
  cases hs.symm.trans hs'
  obtain ⟨record', hr', h⟩ := bind_eq_ok.mp h
  cases hr.symm.trans hr'
  obtain ⟨-, -, h⟩ := bind_eq_ok.mp h
  obtain ⟨readPolicy, -, h⟩ := bind_eq_ok.mp h
  rw [if_neg named, hd] at h
  obtain ⟨f, hf, h⟩ := bind_eq_ok.mp h
  obtain rfl := pure_eq_ok.mp h
  exact ⟨f, hf, rfl, Schema.describes_describe⟩

/-- The guard of a function decides whether the caller may call it. -/
theorem CheckedFunction.exists_decides {schema : Schema} {record : RecordSchema}
    {function : FunctionDecl} {f : CheckedFunction} (other : function.isConstructor = false)
    (checked : schema.check record function = .ok f) {inputs : Inputs} {s : Surroundings}
    {receiver : Datum} (reach : inputs.Reach schema record f.code s receiver)
    (declared : ∀ {r name}, schema.find? name = some r → ∀ f ∈ r.declaration.fields,
      ∃ type, r.type.field? f.name = some type) :
    ∃ b, f.policy.Decides s receiver b ∧ (b = true ↔ Authorized schema record function inputs) := by
  obtain ⟨constructor, made⟩ := Schema.policy_of_check checked
  refine Policy.exists_decides reach declared other made (n := 1) fun plain line h => ?_
  rw [code_eq]
  refine List.mem_append_left _ ?_
  rcases f.guard_cases with ⟨-, none⟩ | some
  · rw [constructor, other, plain] at none
    cases none
  · rw [some]
    exact List.mem_append_left _ h

/-- Whether a caller is refused is just whether the caller is not authorized, given enough steps for the
check; and no instruction of the body is executed before: until the check is over the run is inside the
guard, which it leaves with an empty stack and all else as it was. As everywhere, the ids of the supplied
records and the references to them are texts that UTF-8 can encode: `Text.utf8` is total. -/
theorem authorization_is_exact {program : Program} {contract function : String} {c : Compiled}
    {schema : Schema} {record : RecordSchema} {declaration : FunctionDecl} {call : Call}
    {inputs : Inputs} {code : LinkedCode}
    (compiled : program.compile contract function = .ok c)
    (hs : Schema.ofProgram program = .ok schema) (hr : schema.record contract = .ok record)
    (hd : record.function? function = some declaration)
    (other : declaration.isConstructor = false) (named : function ≠ readAuthName)
    (ids : ∀ t ∈ c.abi.otherTypes, t.field? "id" = some .string)
    (linked : c.code.link c.abi c.header = .ok code)
    (accepted : Inputs.ofCall c.abi call = .ok inputs) (fingerprint : String) :
    ∃ f records k, schema.check record declaration = .ok f ∧
      c.code = f.guard ++ (f.body.code f.guardLabels ++ f.ending) ∧
      LinkedFunction.recordsOf inputs.others = .ok records ∧
      let linkedFunction : LinkedFunction := ⟨c.abi, c.header, code, fingerprint⟩
      let start := linkedFunction.machine inputs
      (∀ limit < k, linkedFunction.run inputs limit =
        .error (.execution (.stepLimit (.integer limit)))) ∧
      (∀ limit, k ≤ limit → (linkedFunction.run inputs limit = .error (.execution .unauthorized) ↔
        ¬ Authorized schema record declaration inputs)) ∧
      (Authorized schema record declaration inputs →
        Reaches code ⟨inputs.callerKey, records⟩ start k
          ⟨[], start.locals, start.receiver, f.guard.size, k, 0⟩) ∧
      ∀ n m, Reaches code ⟨inputs.callerKey, records⟩ start n m →
        n < k ∨ ¬ Authorized schema record declaration inputs → m.place < f.guard.size := by
  obtain ⟨f, checked, same, describes⟩ := Program.function_of_compile compiled hs hr hd named
  obtain ⟨member, -⟩ := Schema.mem_of_find? (Schema.record_eq_ok.mp hr)
  have read := Inputs.read_of_ofCall accepted
  have constructor := (Schema.policy_of_check checked).1.trans other
  have declared : ∀ {r name}, schema.find? name = some r → ∀ f ∈ r.declaration.fields,
      ∃ type, r.type.field? f.name = some type := fun known f hf =>
    (Schema.declared_of_ofProgram hs (Schema.mem_of_find? known).1).2.field hf
  let linkedFunction : LinkedFunction := ⟨c.abi, c.header, code, fingerprint⟩
  obtain ⟨records, found, reach⟩ := read.exists_reach describes hs member ids linkedFunction
  obtain ⟨b, decides, authorized⟩ := f.exists_decides other checked reach declared
  rw [same] at linked
  obtain ⟨k, guarded⟩ := f.exists_guarded constructor linked decides
    (linkedFunction.machine inputs).locals
  have denied : b = false ↔ ¬ Authorized schema record declaration inputs := by
    rw [← authorized, Bool.not_eq_true]
  refine ⟨f, records, k, checked, same.trans f.code_eq, found, fun limit few => ?_,
    fun limit enough => ?_, fun may => guarded.passes (authorized.mpr may),
    fun n m reached early => guarded.before reached (early.imp_right denied.mpr)⟩
  · exact (LinkedFunction.run_eq_error_iff read.described found).mpr (guarded.cutOff _ few)
  · rw [← denied, ← guarded.refuses (.integer limit) enough]
    exact LinkedFunction.run_eq_error_iff read.described found

/-- A function that only the delegate of a record may call to which the receiver refers. -/
def delegatedSource : String :=
  "contract B \x7b id: string; @delegate d: PublicKey; \x7d contract A \x7b b: B; @call(b) f() \x7b \x7d \x7d"

def delegatedCall : Call :=
  { Call.empty with
    receiver := .record [("b", .text "x")],
    others := .record [("B", .list [.record [("id", .text "x"), ("d", .null)]])] }

theorem nobody_is_refused : ∃ program schema record declaration c code inputs,
    Program.read delegatedSource = .ok program ∧ Schema.ofProgram program = .ok schema ∧
    schema.record "A" = .ok record ∧ record.function? "f" = some declaration ∧
    program.compile "A" "f" = .ok c ∧ c.code.link c.abi c.header = .ok code ∧
    Inputs.ofCall c.abi delegatedCall = .ok inputs ∧
    LinkedFunction.run ⟨c.abi, c.header, code, ""⟩ inputs 100 = .error (.execution .unauthorized) ∧
    ¬ Authorized schema record declaration inputs := by
  have runs : (do
      let program ← (Program.read delegatedSource).toOption
      let schema ← (Schema.ofProgram program).toOption
      let record ← (schema.record "A").toOption
      let declaration ← record.function? "f"
      let c ← (program.compile "A" "f").toOption
      let code ← (c.code.link c.abi c.header).toOption
      let inputs ← (Inputs.ofCall c.abi delegatedCall).toOption
      return !declaration.isConstructor &&
        (c.abi.otherTypes.all fun t => t.field? "id" == some .string) &&
        match LinkedFunction.run ⟨c.abi, c.header, code, ""⟩ inputs 100 with
        | .error (.execution .unauthorized) => true
        | _ => false) = some true := by decide +kernel
  simp only [Option.bind_eq_bind, Option.bind_eq_some_iff, toOption_eq_some, Option.pure_def,
    Option.some.injEq, Bool.and_eq_true, Bool.not_eq_true', List.all_eq_true, beq_iff_eq] at runs
  obtain ⟨program, hp, schema, hs, record, hr, declaration, hd, c, compiled, code, linked, inputs,
    accepted, ⟨other, ids⟩, refused⟩ := runs
  obtain ⟨f, records, k, -, -, -, cutOff, refuses, -⟩ :=
    authorization_is_exact compiled hs hr hd other (by decide) ids linked accepted ""
  have unauthorized : LinkedFunction.run ⟨c.abi, c.header, code, ""⟩ inputs 100 =
      .error (.execution .unauthorized) := by
    split at refused
    next outcome => exact outcome
    next => cases refused
  have enough : k ≤ 100 := by
    refine Nat.le_of_not_lt fun few => ?_
    cases unauthorized.symm.trans (cutOff 100 few)
  exact ⟨program, schema, record, declaration, c, code, inputs, hp, hs, hr, hd, compiled, linked,
    accepted, unauthorized, (refuses 100 enough).mp unauthorized⟩

end Covenant
