import Covenant.Proofs.Abi
import Covenant.Proofs.Compile.Followed
import Covenant.Proofs.Text.Composed
/-!
The text that is hashed for a compiled function tells its description apart from all others.

* `Abi.Plain`: a description whose texts are all in composed form as they are;
* `Abi.Plain.canonicalText_toDatum`: what is hashed is the canonical text of the JSON form;
* `Program.plain_abi_of_compile`: names in source text are plain, so descriptions of what is compiled are;
* `compiled_description_is_identified`: two of these with one canonical text are the same.
-/

namespace Covenant

open Datum Text

/-! ## Plain descriptions -/

namespace Ty

theorem plain_primitive (p : Primitive) : (primitive p).toDatum.Worded IsPlain := by
  have name : IsPlain p.name := by cases p <;> decide
  simp +decide [toDatum, name]

theorem plain_publicKey : publicKey.toDatum.Worded IsPlain := by
  simp +decide [toDatum]

theorem plain_reference {contract : String} (h : IsPlain contract) :
    (reference contract).toDatum.Worded IsPlain := by
  simp +decide [toDatum, h]

theorem plain_array {element : Ty} (h : element.toDatum.Worded IsPlain) :
    (array element).toDatum.Worded IsPlain := by
  simp +decide [toDatum, h]

theorem plain_struct {name : String} {fields : List (String × Ty)} (named : IsPlain name)
    (each : ∀ f ∈ fields, IsPlain f.1 ∧ f.2.toDatum.Worded IsPlain) :
    (struct name fields).toDatum.Worded IsPlain := by
  have parts : (Datum.list (fields.map fieldDatum)).Worded IsPlain :=
    .list (List.forall_mem_map.mpr fun f hf => by simp +decide [fieldDatum, each f hf])
  rw [toDatum, fieldData_eq]
  simp +decide only [worded_record, List.forall_mem_cons, worded_text, named, parts, true_and]
  exact List.forall_mem_nil _

end Ty

structure RecordType.Plain (r : RecordType) : Prop where
  name : IsPlain r.name
  fields : ∀ f ∈ r.fields, IsPlain f.1 ∧ f.2.toDatum.Worded IsPlain

theorem RecordType.Plain.field {r : RecordType} (h : r.Plain) {name : String} {type : Ty}
    (held : r.field? name = some type) : IsPlain name ∧ type.toDatum.Worded IsPlain :=
  h.fields (name, type) (mem_of_lookup held)

theorem RecordType.Plain.worded {r : RecordType} (h : r.Plain) : r.toTy.toDatum.Worded IsPlain :=
  Ty.plain_struct h.name h.fields

structure Abi.Plain (abi : Abi) : Prop where
  contract : IsPlain abi.contract
  function : IsPlain abi.function
  this : ∀ r, abi.thisType = some r → r.Plain
  parameterNames : ∀ name ∈ abi.parameterNames, IsPlain name
  parameterTypes : ∀ type ∈ abi.parameterTypes, type.toDatum.Worded IsPlain
  result : ∀ type, abi.returnType = some type → type.toDatum.Worded IsPlain
  others : ∀ r ∈ abi.otherTypes, r.Plain
  dependent : ∀ f ∈ abi.dependentFields, IsPlain f.1 ∧ f.2.toDatum.Worded IsPlain
  required : ∀ name ∈ abi.requiredReferences, IsPlain name
  call : abi.callPolicy.toDatum.Worded IsPlain
  read : abi.readPolicy.toDatum.Worded IsPlain

namespace Abi

theorem plain_texts {names : List String} (h : ∀ name ∈ names, IsPlain name) :
    (texts names).Worded IsPlain := .list (List.forall_mem_map.mpr fun name own => .text (h name own))

theorem plain_optionalType {t : Option Ty} (h : ∀ type, t = some type → type.toDatum.Worded IsPlain) :
    (optionalType t).Worded IsPlain := by
  cases t with
  | none => exact .null
  | some type => exact h type rfl

theorem plain_list {α : Type} {form : α → Datum} {as : List α} (h : ∀ a ∈ as, (form a).Worded IsPlain) :
    (Datum.list (as.map form)).Worded IsPlain := .list (List.forall_mem_map.mpr h)

theorem Plain.worded {abi : Abi} (h : abi.Plain) : abi.toDatum.Worded IsPlain := by
  have this : (optionalType (abi.thisType.map RecordType.toTy)).Worded IsPlain :=
    plain_optionalType fun type same => by
      obtain ⟨r, held, rfl⟩ := Option.map_eq_some_iff.mp same
      exact (h.this r held).worded
  have dependent : ∀ f ∈ abi.dependentFields, (Datum.list [.text f.1, f.2.toDatum]).Worded IsPlain :=
    fun f own => by simp [h.dependent f own]
  rw [toDatum]
  simp +decide only [worded_record, List.forall_mem_cons, worded_text, h.contract, h.function, this,
    plain_texts h.parameterNames, plain_list h.parameterTypes, plain_optionalType h.result,
    plain_list fun r own => (h.others r own).worded, plain_list dependent, plain_texts h.required,
    h.call, h.read, true_and]
  exact List.forall_mem_nil _

/-- What is hashed is the canonical text of the JSON form. -/
theorem Plain.canonicalText_toDatum {abi : Abi} (h : abi.Plain) : Json.canonical abi.toDatum = .ok abi.canonical :=
  Json.canonicalText_of_worded h.worded

end Abi

/-! ## Compiled descriptions -/

/-- A written type has names of its own, and those of records. -/
theorem TypeExpr.plain_of_resolve {records : List String} {line : Nat} {t : TypeExpr} (named : t.Named)
    (known : ∀ name ∈ records, IsPlain name) {type : Ty} (h : t.resolve records line = .ok type) :
    type.toDatum.Worded IsPlain := by
  induction named generalizing type with
  | named name own =>
    obtain ⟨p, rfl⟩ | rfl | ⟨own, rfl⟩ := resolve_named_cases h
    · exact Ty.plain_primitive p
    · exact Ty.plain_publicKey
    · exact Ty.plain_reference (known name own)
  | array _ ih =>
    obtain ⟨element, he, h⟩ := bind_eq_ok.mp h
    obtain rfl := pure_eq_ok.mp h
    exact Ty.plain_array (ih he)
  | object names _ ih =>
    rw [resolve] at h
    split at h
    next =>
      obtain ⟨types, ht, h⟩ := bind_eq_ok.mp h
      obtain rfl := pure_eq_ok.mp h
      exact Ty.plain_struct (by decide) (forall_of_resolveFields (Q := fun type => type.toDatum.Worded IsPlain)
        (fun f hf => (names f hf).isPlain) (fun f hf _ => ih f hf) ht)
    next => cases h

namespace Schema

variable {program : Program} {schema : Schema} {record : RecordSchema}

theorem plain_of_ofProgram (named : program.Named) (h : ofProgram program = .ok schema)
    (hr : record ∈ schema) : record.type.Plain := by
  obtain ⟨own, declared⟩ := declared_of_ofProgram h hr
  have known : ∀ name ∈ program.map RecordDecl.name, IsPlain name :=
    List.forall_mem_map.mpr fun r hr => (named r hr).name.isPlain
  refine ⟨(named _ own).name.isPlain, fun p hp => ?_⟩
  obtain ⟨f, hf, name, resolved⟩ := exists_of_forall₂ declared.fields hp
  have field := (named _ own).fields f hf
  exact ⟨name ▸ field.name.isPlain, TypeExpr.plain_of_resolve field.type known resolved⟩

theorem plain_of_resolve (named : program.Named) (h : ofProgram program = .ok schema) {line : Nat}
    {t : TypeExpr} (written : t.Named) {type : Ty} (resolved : schema.resolve line t = .ok type) :
    type.toDatum.Worded IsPlain :=
  TypeExpr.plain_of_resolve written
    (List.forall_mem_map.mpr fun _ hr => (plain_of_ofProgram named h hr).name) resolved

/-- The texts that a function has from its declaration are plain. -/
theorem plain_of_check (named : program.Named) (hs : ofProgram program = .ok schema) {function : FunctionDecl}
    (written : function.Named) {f : CheckedFunction} (h : schema.check record function = .ok f) :
    IsPlain f.name ∧ (∀ p ∈ f.parameters, IsPlain p.1 ∧ p.2.toDatum.Worded IsPlain) ∧
      ∀ type, f.result = some type → type.toDatum.Worded IsPlain := by
  obtain ⟨parameters, hp, h⟩ := bind_eq_ok.mp h
  obtain ⟨result, hres, h⟩ := bind_eq_ok.mp h
  obtain ⟨policy, -, h⟩ := bind_eq_ok.mp h
  obtain ⟨scope, -, h⟩ := bind_eq_ok.mp h
  obtain ⟨body, -, h⟩ := bind_eq_ok.mp h
  obtain rfl := pure_eq_ok.mp h
  refine ⟨written.name.isPlain, fun p hm => ?_, ?_⟩
  · obtain ⟨declared, hd, made⟩ := exists_of_forall₂ (mapM_eq_ok.mp hp) hm
    obtain ⟨type, resolved, made⟩ := bind_eq_ok.mp made
    obtain rfl := pure_eq_ok.mp made
    have parameter := written.parameters declared hd
    exact ⟨parameter.name.isPlain, plain_of_resolve named hs parameter.type resolved⟩
  · rintro type rfl
    rcases optionMapM_eq_ok.mp hres with ⟨-, none⟩ | ⟨t, type', own, same, resolved⟩
    · cases none
    · cases same
      exact plain_of_resolve named hs (written.result t own) resolved

end Schema

/-- The texts of a policy are names of fields and of records, and digits. -/
theorem Policy.Refers.plain {schema : Schema} {this : RecordType} (own : this.Plain)
    (known : ∀ r ∈ schema, r.declaration.Named) {p : Policy} (h : p.Refers schema this) :
    p.toDatum.Worded IsPlain := by
  induction h with
  | anyone | denied => simp +decide [toDatum]
  | field held => simp +decide [toDatum, (own.field held).1]
  | @key k point => simp +decide [toDatum, k.isPlain_toHex]
  | @delegate via contract delegateField r held found marked =>
    obtain ⟨member, rfl⟩ := Schema.mem_of_find? found
    obtain ⟨f, hf, rfl⟩ := RecordSchema.exists_of_delegateField marked
    have name : IsPlain r.name := (known r member).name.isPlain
    simp +decide [toDatum, (own.field held).1, name, ((known r member).fields f hf).name.isPlain]
  | anyOf _ ih =>
    rw [toDatum, toData_eq]
    simp +decide only [worded_record, List.forall_mem_cons, worded_text, Abi.plain_list ih, true_and]
    exact List.forall_mem_nil _

/-- A description is plain if what it is made from is. -/
theorem Schema.plain_describe {schema : Schema} {record : RecordSchema} (records : ∀ r ∈ schema, r.type.Plain)
    (hr : record ∈ schema) {name : String} {parameters : List (String × Ty)} {result : Option Ty}
    {code : Code} {followed : List String} {call read : Policy} (function : IsPlain name)
    (typed : ∀ p ∈ parameters, IsPlain p.1 ∧ p.2.toDatum.Worded IsPlain)
    (returned : ∀ type, result = some type → type.toDatum.Worded IsPlain)
    (required : ∀ name ∈ followed, ∃ type, record.type.field? name = some type)
    (caller : call.toDatum.Worded IsPlain) (reader : read.toDatum.Worded IsPlain) :
    (schema.describe record name parameters result code followed call read).Plain := by
  have own := records record hr
  have describes : (schema.describe record name parameters result code followed call read).Describes schema
    record code := describes_describe
  refine ⟨own.name, function, ?_, ?_, ?_, returned, ?_, ?_, ?_, caller, reader⟩
  · rintro r same
    cases same
    exact own
  · exact List.forall_mem_map.mpr fun p hp => (typed p hp).1
  · exact List.forall_mem_map.mpr fun p hp => (typed p hp).2
  · intro type other
    obtain ⟨r, known, rfl⟩ := describes.known other
    exact records r (mem_of_find? known).1
  · exact fun f dependent => own.field (describes.own dependent)
  · intro name followed
    obtain ⟨type, held⟩ := required name followed
    exact (own.field held).1

/-- The description of what is compiled from source text is plain. -/
theorem Program.plain_abi_of_compile {source : String} {program : Program} {contract function : String}
    {c : Compiled} (hp : Program.read source = .ok program)
    (hc : program.compile contract function = .ok c) : c.abi.Plain := by
  have named := Program.named_of_read hp
  obtain ⟨schema, record, policy, hs, hr, hread, made⟩ := Program.cases_of_compile hc
  obtain ⟨member, -⟩ := Schema.mem_of_find? (Schema.record_eq_ok.mp hr)
  have records : ∀ r ∈ schema, r.type.Plain := fun r => Schema.plain_of_ofProgram named hs
  have declared : ∀ r ∈ schema, r.declaration.Named :=
    fun r own => (Schema.named_of_ofProgram named hs own).1
  have readers := Schema.refers_of_readPolicy hread
  have reader := readers.plain (records record member) declared
  rcases made with ⟨-, rfl⟩ | ⟨declaration, f, hd, checked, -, abi⟩
  -- the check of who may read has no declaration: its name and its result are fixed
  · have caller : Policy.anyone.toDatum.Worded IsPlain := by simp +decide [Policy.toDatum]
    refine Schema.plain_describe records member (by decide) (List.forall_mem_nil _) ?_ ?_ caller reader
    · rintro type same
      cases same
      exact Ty.plain_primitive .boolean
    · intro name followed
      obtain ⟨contract, held⟩ := readers.followed followed
      exact ⟨_, held⟩
  · have own := List.mem_of_find?_eq_some hd
    have sound := Schema.sound_of_check named hs member own checked
    obtain ⟨name, parameters, result⟩ :=
      Schema.plain_of_check named hs ((declared record member).functions declaration own) checked
    rw [abi]
    refine Schema.plain_describe records member name parameters result (fun name followed => ?_)
      (sound.policy.plain (records record member) declared) reader
    obtain ⟨contract, held⟩ := sound.followed followed
    exact ⟨_, held⟩

/-- What is hashed for a description that is compiled from any source text is the canonical text of its JSON
form, and the texts of two such descriptions are the same just when they are. -/
theorem compiled_description_is_identified {source source' : String} {program program' : Program}
    {contract contract' function function' : String} {c c' : Compiled}
    (hp : Program.read source = .ok program) (hp' : Program.read source' = .ok program')
    (hc : program.compile contract function = .ok c) (hc' : program'.compile contract' function' = .ok c') :
    Json.canonical c.abi.toDatum = .ok c.abi.canonical ∧
      (c.abi.canonical = c'.abi.canonical ↔ c.abi = c'.abi) := by
  have plain := Program.plain_abi_of_compile hp hc
  have plain' := Program.plain_abi_of_compile hp' hc'
  refine ⟨plain.canonicalText_toDatum, fun same => ?_, congrArg Abi.canonical⟩
  have fixed : ∀ {abi : Abi}, abi.Plain → abi.toDatum.Worded fun s => composed s = s :=
    fun plain => plain.worded.imp fun _ => composed_of_isPlain
  exact Abi.eq_of_alike (Json.alike_of_canonical_eq (fixed plain) (fixed plain') c.abi.distinct_toDatum
    c'.abi.distinct_toDatum same)

/-- A record with one function, of which the parameter has a type and the body adds an amount. -/
def tallySource (type amount : String) : String :=
  "contract Tally \x7b n: u64; @call add(k: " ++ type ++ ") \x7b this.n += " ++ amount ++ "; \x7d \x7d"

def tallyDescription (type : Primitive) : Abi where
  contract := "Tally"
  function := "add"
  thisType := some ⟨"Tally", [("n", .primitive .u64)]⟩
  parameterNames := ["k"]
  parameterTypes := [.primitive type]
  returnType := none
  otherTypes := []
  dependentFields := [("n", .primitive .u64)]
  requiredReferences := []
  callPolicy := .anyone
  readPolicy := .denied

theorem exists_tally (type amount : String) (p : Primitive) (runs : (do
      let program ← (Program.read (tallySource type amount)).toOption
      let c ← (program.compile "Tally" "add").toOption
      return decide (c.abi = tallyDescription p)) = some true) :
    ∃ program c, Program.read (tallySource type amount) = .ok program ∧
      program.compile "Tally" "add" = .ok c ∧ c.abi = tallyDescription p := by
  simp only [Option.bind_eq_bind, Option.bind_eq_some_iff, toOption_eq_some, Option.pure_def,
    Option.some.injEq, decide_eq_true_eq] at runs
  obtain ⟨program, hp, c, hc, same⟩ := runs
  exact ⟨program, c, hp, hc, same⟩

/-- Another amount leaves the text that is hashed as it is, another type does not. -/
theorem tally_is_identified : ∃ first second third : Compiled,
    (∃ program, Program.read (tallySource "u64" "k") = .ok program ∧
      program.compile "Tally" "add" = .ok first) ∧
    (∃ program, Program.read (tallySource "u64" "1") = .ok program ∧
      program.compile "Tally" "add" = .ok second) ∧
    (∃ program, Program.read (tallySource "u32" "1") = .ok program ∧
      program.compile "Tally" "add" = .ok third) ∧
    Json.canonical first.abi.toDatum = .ok first.abi.canonical ∧
    first.abi.canonical = second.abi.canonical ∧ second.abi.canonical ≠ third.abi.canonical := by
  obtain ⟨p₁, first, hp₁, hc₁, abi₁⟩ := exists_tally "u64" "k" .u64 (by decide +kernel)
  obtain ⟨p₂, second, hp₂, hc₂, abi₂⟩ := exists_tally "u64" "1" .u64 (by decide +kernel)
  obtain ⟨p₃, third, hp₃, hc₃, abi₃⟩ := exists_tally "u32" "1" .u32 (by decide +kernel)
  have other : second.abi ≠ third.abi := by
    rw [abi₂, abi₃]
    decide
  obtain ⟨text, same⟩ := compiled_description_is_identified hp₁ hp₂ hc₁ hc₂
  obtain ⟨-, apart⟩ := compiled_description_is_identified hp₂ hp₃ hc₂ hc₃
  exact ⟨first, second, third, ⟨p₁, hp₁, hc₁⟩, ⟨p₂, hp₂, hc₂⟩, ⟨p₃, hp₃, hc₃⟩, text,
    same.mpr (abi₁.trans abi₂.symm), fun equal => other (apart.mp equal)⟩

end Covenant
