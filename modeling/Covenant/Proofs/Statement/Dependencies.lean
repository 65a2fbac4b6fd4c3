import Covenant.Proofs.Run.References
import Covenant.Proofs.Statement.Functions
import Covenant.Proofs.Statement.Uses
/-!
What a function depends on is what its source says.

* `Policy.uses`, `Program.uses`: the uses of a policy, and of the source of a function;
* `CheckedFunction.reflects_code`: the code of a function has the uses of its policy and its body;
* `Abi.DependsOn`: a description lists the fields and the records of uses, each once;
* `dependencies_are_those_of_the_source`: so does the description that compiling makes of a function.
-/

namespace Covenant

open Code

/-! ## Uses of policies -/

namespace Policy

mutual
/-- The uses of a policy: the fields that it names, and the records whose delegates it names. -/
def uses : Policy → List Use
  | .anyone | .denied | .key _ => []
  | .field name => [.reads name]
  | .delegate holder contract _ => [.reads holder, .follows contract]
  | .anyOf policies => usesOfAll policies

def usesOfAll : List Policy → List Use
  | [] => []
  | p :: rest => p.uses ++ usesOfAll rest
end

mutual
theorem uses_code (n : Nat) : ∀ p : Policy, Code.uses (p.code n) = p.uses
  | .anyone | .denied | .field _ | .delegate _ _ _ | .key _ => by
    simp [code, uses, truth, Instruction.use?]
  | .anyOf policies => by simp [code, uses, truth, Instruction.use?, uses_codeOfAll _ _ policies]

theorem uses_codeOfAll (n : Nat) (satisfied : String) : ∀ policies : List Policy,
    Code.uses (codeOfAll n satisfied policies) = usesOfAll policies
  | [] => rfl
  | p :: rest => by simp [codeOfAll, usesOfAll, Instruction.use?, uses_code _ p, uses_codeOfAll _ _ rest]
end

end Policy

/-! ## Uses of functions -/

/-- What the source of a function of a record uses: by the policy of those who may call it, and in its body.
The check of who may read the record has a policy only. -/
def Schema.uses (schema : Schema) (record : RecordSchema) (function : String) :
    Except CompileError (List Use) := do
  if function = readAuthName then return (← schema.readPolicy record).uses
  else match record.function? function with
    | some declaration =>
      let policy ← schema.callPolicy record declaration
      return policy.uses ++ declaration.body.uses (declaration.scope schema record)
    | none => CompileError.throwGlobal (.unknownFunction function)

namespace CheckedFunction

/-- The guard has the uses of the policy also where there is none: a constructor may be called by anyone. -/
theorem uses_guard {schema : Schema} {record : RecordSchema} {declaration : FunctionDecl}
    {f : CheckedFunction} (checked : schema.check record declaration = .ok f) :
    Code.uses f.guard = f.policy.uses := by
  obtain ⟨constructor, policy⟩ := Schema.policy_of_check checked
  rcases f.guard_cases with ⟨none, open?⟩ | some
  · have anyone : f.policy = .anyone := by
      rcases Bool.or_eq_true_iff.mp open? with own | anyone
      · rw [Schema.callPolicy, if_pos (constructor ▸ own)] at policy
        exact (pure_eq_ok.mp policy).symm
      · cases h : f.policy <;> first | rfl | (rw [h] at anyone; cases anyone)
    rw [none, anyone]
    rfl
  · rw [some]
    simp [Policy.uses_code, Instruction.use?]

theorem uses_ending (f : CheckedFunction) : Code.uses f.ending = [] := by
  unfold ending
  cases f.result <;> rfl

/-- The code of a function has the uses of its policy and its body. -/
theorem reflects_code {schema : Schema} {record : RecordSchema} {declaration : FunctionDecl}
    {f : CheckedFunction} (checked : schema.check record declaration = .ok f) :
    Use.Reflects (f.policy.uses ++ declaration.body.uses (declaration.scope schema record))
      (Code.uses f.code) := by
  obtain ⟨-, -, s', typed⟩ := Schema.body_of_check checked
  rw [code, uses_append, uses_append, uses_guard checked, uses_ending, List.append_nil]
  exact (Use.Reflects.refl _).append (declaration.body.reflected typed _)

end CheckedFunction

/-! ## Descriptions -/

theorem nodup_firstUses (names : List String) : (firstUses names).Nodup := by
  have kept : ∀ (names found : List String), found.Nodup → (names.foldl addNew found).Nodup := by
    intro names
    induction names with
    | nil => exact fun _ distinct => distinct
    | cons first rest ih =>
      intro found distinct
      refine ih _ ?_
      unfold addNew
      split
      next => exact distinct
      next other =>
        refine List.nodup_append.mpr ⟨distinct, List.nodup_singleton _, fun a ha b hb => ?_⟩
        rintro rfl
        rw [List.mem_singleton.mp hb] at ha
        exact other (List.contains_iff_mem.mpr ha)
  exact kept names [] List.nodup_nil

theorem mem_firstUses_iff {name : String} {names : List String} : name ∈ firstUses names ↔ name ∈ names :=
  ⟨mem_of_mem_firstUses, mem_firstUses⟩

theorem Line.dependsOn?_eq_some {this : RecordType} {line : Line} {field : String} :
    line.dependsOn? this = some field ↔ line.use? = some (.reads field) ∨
      (line.use? = some (.sets field) ∧ this.field? field = some .publicKey) := by
  cases line with
  | label name => simp [dependsOn?, use?]
  | instruction i =>
    cases i with
    | storeThis name =>
      simp only [dependsOn?, use?, Instruction.use?]
      split
      all_goals simp; grind
    | _ => simp [dependsOn?, use?, Instruction.use?]

theorem Line.looksUp?_eq_some {line : Line} {contract : String} :
    line.looksUp? = some contract ↔ line.use? = some (.follows contract) := by
  cases line with
  | label name => simp [looksUp?, use?]
  | instruction i => cases i <;> simp [looksUp?, use?, Instruction.use?]

namespace Code

variable {code : Code}

theorem mem_uses {u : Use} : u ∈ code.uses ↔ ∃ line ∈ code, line.use? = some u := List.mem_filterMap

theorem mem_dependentFields {this : RecordType} {field : String} :
    field ∈ code.dependentFields this ↔
      .reads field ∈ code.uses ∨ (.sets field ∈ code.uses ∧ this.field? field = some .publicKey) := by
  rw [dependentFields, mem_firstUses_iff, List.mem_filterMap, mem_uses, mem_uses]
  simp only [Line.dependsOn?_eq_some]
  grind

theorem mem_lookedUp {contract : String} : contract ∈ code.lookedUp ↔ .follows contract ∈ code.uses := by
  rw [lookedUp, mem_firstUses_iff, List.mem_filterMap, mem_uses]
  simp only [Line.looksUp?_eq_some]

theorem mem_of_use {u : Use} (h : u ∈ code.uses) : ∃ i, .instruction i ∈ code ∧ i.use? = some u := by
  obtain ⟨line, here, used⟩ := mem_uses.mp h
  cases line with
  | label name => cases used
  | instruction i => exact ⟨i, here, used⟩

end Code

namespace Use.Reflects

variable {us vs : List Use}

theorem reads (h : Reflects us vs) {field : String} : .reads field ∈ vs ↔ .reads field ∈ us := by
  refine ⟨fun hu => ?_, fun hu => h.shown hu⟩
  rcases h.known _ hu with own | ⟨_, same, -⟩
  · exact own
  · cases same

theorem follows (h : Reflects us vs) {contract : String} :
    .follows contract ∈ vs ↔ .follows contract ∈ us := by
  refine ⟨fun hu => ?_, fun hu => h.shown hu⟩
  rcases h.known _ hu with own | ⟨_, same, -⟩
  · exact own
  · cases same

end Use.Reflects

/-- A description lists what uses of a record of a type depend on: each field that is read, and each field for
a key that is replaced, with its type; and each record that is looked up. -/
structure Abi.DependsOn (abi : Abi) (schema : Schema) (this : RecordType) (uses : List Use) : Prop where
  fieldsOnce : (abi.dependentNames).Nodup
  declared : ∀ p ∈ abi.dependentFields, this.field? p.1 = some p.2
  fields : ∀ field, field ∈ abi.dependentNames ↔
    .reads field ∈ uses ∨ (.sets field ∈ uses ∧ this.field? field = some .publicKey)
  recordsOnce : (abi.otherTypes.map RecordType.name).Nodup
  known : ∀ type ∈ abi.otherTypes, ∃ r, schema.find? type.name = some r ∧ r.type = type
  records : ∀ contract, contract ∈ abi.otherTypes.map RecordType.name ↔ .follows contract ∈ uses

/-- Names that are all known are the names of what they stand for. -/
theorem map_filterMap_eq_self {α β : Type} {l : List α} {find : α → Option β} {key : β → α}
    (each : ∀ a ∈ l, ∃ b, find a = some b ∧ key b = a) : (l.filterMap find).map key = l := by
  induction l with
  | nil => rfl
  | cons a rest ih =>
    obtain ⟨b, found, own⟩ := each a List.mem_cons_self
    rw [List.filterMap_cons_some found, List.map_cons, own, ih fun a' h => each a' (List.mem_cons_of_mem _ h)]

namespace Code.Proper

variable {l : Layout} {code : Code}

/-- Proper code reads fields of its record only. -/
theorem field_of_reads (proper : Code.Proper l code) {field : String} (used : .reads field ∈ code.uses) :
    ∃ type, l.this.field? field = some type := by
  obtain ⟨i, hi, own⟩ := mem_of_use used
  have known : i.Proper l := proper _ hi
  cases i with
  | loadThis name =>
    cases own
    exact Option.isSome_iff_exists.mp known.2
  | _ => cases own

/-- It looks up records of its schema only. -/
theorem record_of_follows (proper : Code.Proper l code) {contract : String}
    (used : .follows contract ∈ code.uses) : ∃ r, l.schema.find? contract = some r := by
  obtain ⟨i, hi, own⟩ := mem_of_use used
  have known : i.Proper l := proper _ hi
  cases i with
  | deref name =>
    cases own
    exact known.2
  | _ => cases own

end Code.Proper

namespace Schema

variable {schema : Schema} {record : RecordSchema} {slots : List Ty} {name : String}
  {parameters : List (String × Ty)} {result : Option Ty} {code : Code} {followed : List String}
  {call read : Policy} {uses : List Use}

theorem dependentNames_describe (proper : Code.Proper ⟨schema, record.type, slots⟩ code) :
    (schema.describe record name parameters result code followed call read).dependentNames =
      code.dependentFields record.type := by
  refine map_filterMap_eq_self fun field h => ?_
  have known : ∃ type, record.type.field? field = some type :=
    (mem_dependentFields.mp h).elim proper.field_of_reads fun key => ⟨_, key.2⟩
  obtain ⟨type, held⟩ := known
  exact ⟨(field, type), by rw [held]; rfl, rfl⟩

theorem otherNames_describe (proper : Code.Proper ⟨schema, record.type, slots⟩ code) :
    (schema.describe record name parameters result code followed call read).otherTypes.map RecordType.name =
      code.lookedUp := by
  refine map_filterMap_eq_self fun contract h => ?_
  obtain ⟨r, known⟩ := proper.record_of_follows (mem_lookedUp.mp h)
  exact ⟨r.type, by rw [known]; rfl, (mem_of_find? known).2⟩

/-- The description of code depends on the uses that the code reflects. -/
theorem dependsOn_describe (proper : Code.Proper ⟨schema, record.type, slots⟩ code)
    (reflects : Use.Reflects uses code.uses) :
    (schema.describe record name parameters result code followed call read).DependsOn schema record.type
      uses where
  fieldsOnce := by
    rw [dependentNames_describe proper]
    exact nodup_firstUses _
  declared _ h := Abi.Describes.own describes_describe h
  fields field := by
    rw [dependentNames_describe proper, mem_dependentFields, reflects.reads]
    -- a field whose value is changed in part is read
    refine ⟨fun h => ?_, fun h => h.imp_right fun key => ⟨reflects.shown key.1, key.2⟩⟩
    rcases h with read | ⟨set, key⟩
    · exact .inl read
    · rcases reflects.known _ set with own | ⟨other, same, read⟩
      · exact .inr ⟨own, key⟩
      · cases same
        exact .inl read
  recordsOnce := by
    rw [otherNames_describe proper]
    exact nodup_firstUses _
  known _ h := Abi.Describes.known describes_describe h
  records contract := by rw [otherNames_describe proper, mem_lookedUp, reflects.follows]

/-! ## Compiled functions -/

variable {program : Program} (named : program.Named) (hs : ofProgram program = .ok schema)
  (member : record ∈ schema)

include named hs member

theorem dependsOn_compileReadAuth {policy : Policy} (hread : schema.readPolicy record = .ok policy) :
    (schema.compileReadAuth record policy).abi.DependsOn schema record.type policy.uses := by
  have refers := refers_of_readPolicy hread
  have own : Code.Proper ⟨schema, record.type, []⟩ (policy.code 0) :=
    refers.proper (layout_named named hs member) (fun r h => (named_of_ofProgram named hs h).1) 0
  refine dependsOn_describe (own.append (.one trivial)) (.of_mem_iff fun u => ?_)
  simp [Policy.uses_code, Instruction.use?]

theorem dependsOn_compileFunction {readPolicy : Policy} {declaration : FunctionDecl} {c : Compiled}
    (hd : declaration ∈ record.declaration.functions)
    (h : schema.compileFunction record readPolicy declaration = .ok c) :
    ∃ policy, schema.callPolicy record declaration = .ok policy ∧ c.abi.DependsOn schema record.type
      (policy.uses ++ declaration.body.uses (declaration.scope schema record)) := by
  obtain ⟨f, checked, h⟩ := bind_eq_ok.mp h
  obtain rfl := pure_eq_ok.mp h
  have sound := sound_of_check named hs member hd checked
  have proper := sound.proper fun r h => (named_of_ofProgram named hs h).1
  exact ⟨f.policy, (policy_of_check checked).2,
    dependsOn_describe proper (CheckedFunction.reflects_code checked)⟩

end Schema

/-- What a description of a compiled function says that it depends on is what its source uses. -/
theorem dependencies_are_those_of_the_source {source : String} {program : Program}
    {contract function : String} {c : Compiled} (hp : Program.read source = .ok program)
    (hc : program.compile contract function = .ok c) :
    ∃ schema record uses, Schema.ofProgram program = .ok schema ∧ schema.record contract = .ok record ∧
      schema.uses record function = .ok uses ∧ c.abi.DependsOn schema record.type uses := by
  have named := Program.named_of_read hp
  obtain ⟨schema, hs, h⟩ := bind_eq_ok.mp hc
  obtain ⟨record, hr, h⟩ := bind_eq_ok.mp h
  obtain ⟨-, -, h⟩ := bind_eq_ok.mp h
  obtain ⟨readPolicy, hread, h⟩ := bind_eq_ok.mp h
  obtain ⟨member, -⟩ := Schema.mem_of_find? (Schema.record_eq_ok.mp hr)
  split at h
  next readAuth =>
    obtain rfl := pure_eq_ok.mp h
    have used : schema.uses record function = .ok readPolicy.uses := by
      rw [Schema.uses, if_pos readAuth, hread]
      rfl
    exact ⟨schema, record, _, hs, hr, used, Schema.dependsOn_compileReadAuth named hs member hread⟩
  next other =>
    split at h
    next declaration hd =>
      obtain ⟨policy, made, depends⟩ :=
        Schema.dependsOn_compileFunction named hs member (List.mem_of_find?_eq_some hd) h
      refine ⟨schema, record, _, hs, hr, ?_, depends⟩
      simp only [Schema.uses, if_neg other, hd, made]
      rfl
    next => cases h

def pledgeSource : String :=
  "contract Bank \x7b @delegate key: PublicKey; \x7d contract Pledge \x7b bank: Bank; key: PublicKey; " ++
  "n: u32; m: u32; all: u32[]; @call(bank) give() \x7b this.key = ctx.publicKey; this.m = 1; " ++
  "if (false) this.all[this.n] = 2; \x7d \x7d"

/-- The key is replaced, and the array changed in part, though in a dead branch. A number that is only set is
none of the dependent fields. -/
theorem pledge_depends : ∃ program c schema record uses, Program.read pledgeSource = .ok program ∧
    program.compile "Pledge" "give" = .ok c ∧ schema.uses record "give" = .ok uses ∧
    c.abi.DependsOn schema record.type uses ∧
    c.abi.dependentNames = ["bank", "key", "all", "n"] ∧
    c.abi.otherTypes.map RecordType.name = ["Bank"] := by
  have runs : (do
      let program ← (Program.read pledgeSource).toOption
      let c ← (program.compile "Pledge" "give").toOption
      return c.abi.dependentNames == ["bank", "key", "all", "n"] &&
        c.abi.otherTypes.map RecordType.name == ["Bank"]) = some true := by decide +kernel
  simp only [Option.bind_eq_bind, Option.bind_eq_some_iff, toOption_eq_some, Option.pure_def,
    Option.some.injEq, Bool.and_eq_true, beq_iff_eq] at runs
  obtain ⟨program, hp, c, hc, names, records⟩ := runs
  obtain ⟨schema, record, uses, -, -, used, depends⟩ := dependencies_are_those_of_the_source hp hc
  exact ⟨program, c, schema, record, uses, hp, hc, used, depends, names, records⟩

end Covenant
