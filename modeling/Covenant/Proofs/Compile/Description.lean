import Covenant.Compile
import Covenant.Proofs.Term.WellTyped
/-!
The description of a compiled function lists what its code uses.

* `Abi.Describes`: it has the record, the fields that are loaded and the records that are looked up;
* `Schema.describes_describe`: so has the description that is made for code.
-/

namespace Covenant

theorem mem_addNew {found : List String} {name other : String} :
    name ∈ addNew found other ↔ name ∈ found ∨ name = other := by
  unfold addNew
  split
  next known =>
    rw [List.contains_iff_mem] at known
    exact ⟨.inl, fun h => h.elim id fun same => same ▸ known⟩
  next => rw [List.mem_append, List.mem_singleton]

theorem mem_foldl_addNew {names found : List String} {name : String} :
    name ∈ names.foldl addNew found ↔ name ∈ found ∨ name ∈ names := by
  induction names generalizing found with
  | nil => simp
  | cons first rest ih => rw [List.foldl_cons, ih, mem_addNew, List.mem_cons, or_assoc]

theorem mem_firstUses {name : String} {names : List String} (h : name ∈ names) :
    name ∈ firstUses names :=
  mem_foldl_addNew.mpr (.inr h)

/-- What is listed as first uses is used. -/
theorem mem_of_mem_firstUses {name : String} {names : List String} (h : name ∈ firstUses names) :
    name ∈ names :=
  (mem_foldl_addNew.mp h).resolve_left List.not_mem_nil

theorem Policy.mem_followed {p : Policy} {field : String} (h : field ∈ p.followed) :
    ∃ contract delegateField, p = .delegate field contract delegateField := by
  cases p with
  | delegate holder contract delegateField =>
    obtain rfl := List.mem_singleton.mp h
    exact ⟨contract, delegateField, rfl⟩
  | _ => cases h

structure Abi.Describes (abi : Abi) (schema : Schema) (record : RecordSchema) (code : Code) : Prop where
  this : abi.thisType = some record.type
  /-- the fields that are loaded -/
  dependent : ∀ {name type}, .instruction (.loadThis name) ∈ code →
    record.type.field? name = some type → (name, type) ∈ abi.dependentFields
  /-- all of them are fields of the record -/
  own : ∀ {name type}, (name, type) ∈ abi.dependentFields → record.type.field? name = some type
  /-- the records that are looked up -/
  others : ∀ {contract r}, .instruction (.deref contract) ∈ code → schema.find? contract = some r →
    r.type ∈ abi.otherTypes
  known : ∀ {type}, type ∈ abi.otherTypes → ∃ r, schema.find? type.name = some r ∧ r.type = type

theorem Abi.Describes.otherType {abi : Abi} {schema : Schema} {record : RecordSchema} {code : Code}
    (describes : abi.Describes schema record code) {contract : String} {r : RecordSchema}
    (h : .instruction (.deref contract) ∈ code) (known : schema.find? contract = some r) :
    (abi.otherType? contract).isSome = true := by
  rw [Abi.otherType?, List.find?_isSome]
  refine ⟨r.type, describes.others h known, ?_⟩
  rw [beq_iff_eq]
  exact (Schema.mem_of_find? known).2

theorem Schema.describes_describe {schema : Schema} {record : RecordSchema} {name : String}
    {parameters : List (String × Ty)} {result : Option Ty} {code : Code} {followed : List String}
    {call read : Policy} : (schema.describe record name parameters result code followed call
      read).Describes schema record code where
  this := rfl
  dependent := by
    intro name type h held
    refine List.mem_filterMap.mpr ⟨name, mem_firstUses (List.mem_filterMap.mpr ⟨_, h, rfl⟩), ?_⟩
    rw [held]
    rfl
  own := by
    intro name type h
    obtain ⟨name', -, h⟩ := List.mem_filterMap.mp h
    obtain ⟨type', held, same⟩ := Option.map_eq_some_iff.mp h
    cases same
    exact held
  others := by
    intro contract r h known
    refine List.mem_filterMap.mpr ⟨contract, mem_firstUses (List.mem_filterMap.mpr ⟨_, h, rfl⟩), ?_⟩
    rw [known]
    rfl
  known := by
    intro type h
    obtain ⟨contract, -, h⟩ := List.mem_filterMap.mp h
    obtain ⟨r, known, rfl⟩ := Option.map_eq_some_iff.mp h
    have same : r.type.name = contract := (mem_of_find? known).2
    exact ⟨r, same ▸ known, rfl⟩

end Covenant
