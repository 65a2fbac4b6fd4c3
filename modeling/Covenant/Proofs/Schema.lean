import Covenant.Proofs.Except
import Covenant.Proofs.Lists
import Covenant.Proofs.Term.WellTyped
import Covenant.Schema
/-!
The records of a schema and their declarations.

* `Ty.Distinct`: the fields of all structs in a type have different names, as in all types that are
  written (`TypeExpr.resolve_distinct`);
* `RecordSchema.Declared`: the fields of a record are those of its declaration, in order, with the types
  that are written there;
* `Schema.declared_of_ofProgram`, `Schema.named_of_ofProgram`: so it is with all records of a program,
  and they have names if the declarations have.
-/

namespace Covenant

/-! ## Names of fields -/

namespace Ty

inductive Distinct : Ty → Prop
  | primitive (p : Primitive) : Distinct (.primitive p)
  | publicKey : Distinct .publicKey
  | reference (contract : String) : Distinct (.reference contract)
  | array {element : Ty} (h : Distinct element) : Distinct (.array element)
  | struct {name : String} {fields : List (String × Ty)} (nodup : (fields.map Prod.fst).Nodup)
      (parts : ∀ f ∈ fields, Distinct f.2) : Distinct (.struct name fields)

theorem distinct_struct_iff {name : String} {fields : List (String × Ty)} :
    Distinct (.struct name fields) ↔ (fields.map Prod.fst).Nodup ∧ ∀ f ∈ fields, f.2.Distinct := by
  constructor
  · rintro (_ | _ | _ | _ | ⟨nodup, parts⟩)
    exact ⟨nodup, parts⟩
  · rintro ⟨nodup, parts⟩
    exact .struct nodup parts

end Ty

namespace TypeExpr

mutual
/-- The fields of all structs of a written type have different names. -/
theorem resolve_distinct : ∀ (t : TypeExpr) {records : List String} {line : Nat} {type : Ty},
    t.resolve records line = .ok type → type.Distinct
  | .named name own, records, line, type, h => by
    obtain ⟨p, rfl⟩ | rfl | ⟨-, rfl⟩ := resolve_named_cases h
    · exact .primitive p
    · exact .publicKey
    · exact .reference name
  | .array element, records, line, type, h => by
    obtain ⟨t, ht, h⟩ := bind_eq_ok.mp h
    obtain rfl := pure_eq_ok.mp h
    exact .array (resolve_distinct element ht)
  | .object fields, records, line, type, h => by
    rw [resolve] at h
    split at h
    next nodup =>
      obtain ⟨types, ht, h⟩ := bind_eq_ok.mp h
      obtain rfl := pure_eq_ok.mp h
      obtain ⟨names, parts⟩ := resolveFields_distinct fields ht
      exact .struct (names ▸ nodup) parts
    next => cases h

theorem resolveFields_distinct : ∀ (fields : List (String × TypeExpr)) {records : List String}
    {line : Nat} {types : List (String × Ty)}, resolveFields records line fields = .ok types →
      types.map Prod.fst = fields.map Prod.fst ∧ ∀ f ∈ types, f.2.Distinct
  | [], records, line, types, h => by
    obtain rfl := pure_eq_ok.mp h
    exact ⟨rfl, by simp⟩
  | (name, t) :: rest, records, line, types, h => by
    obtain ⟨type, ht, h⟩ := bind_eq_ok.mp h
    obtain ⟨types', hts, h⟩ := bind_eq_ok.mp h
    obtain rfl := pure_eq_ok.mp h
    obtain ⟨names, parts⟩ := resolveFields_distinct rest hts
    exact ⟨congrArg (name :: ·) names, List.forall_mem_cons.mpr ⟨resolve_distinct t ht, parts⟩⟩
end

end TypeExpr

/-! ## Declared records -/

structure RecordSchema.Declared (records : List String) (r : RecordSchema) : Prop where
  fields : List.Forall₂ (fun (f : FieldDecl) (p : String × Ty) =>
    p.1 = f.name ∧ f.type.resolve records f.line = .ok p.2) r.declaration.fields r.fields
  nodup : (r.fields.map Prod.fst).Nodup

namespace RecordSchema.Declared

variable {records : List String} {r : RecordSchema}

theorem names (h : r.Declared records) :
    r.fields.map Prod.fst = r.declaration.fields.map FieldDecl.name :=
  (map_eq_of_forall₂ (h.fields.imp fun _ _ same => same.1.symm)).symm

/-- A declared field is a field of the record. -/
theorem field (h : r.Declared records) {f : FieldDecl} (hf : f ∈ r.declaration.fields) :
    ∃ type, r.type.field? f.name = some type := by
  have here : f.name ∈ r.fields.map Prod.fst := by
    rw [h.names]
    exact List.mem_map_of_mem hf
  exact exists_lookup_iff.mpr here

theorem named (h : r.Declared records) (hn : r.declaration.Named) : r.type.Named := by
  intro p hp
  obtain ⟨f, hf, name, resolved⟩ := exists_of_forall₂ h.fields hp
  have field := hn.fields f hf
  exact ⟨name ▸ field.name.ne_empty, TypeExpr.resolve_named field.type resolved⟩

/-- The fields of all structs of a declared record have different names. -/
theorem distinct (h : r.Declared records) : r.type.toTy.Distinct := by
  refine .struct h.nodup fun f hf => ?_
  obtain ⟨field, -, -, resolved⟩ := exists_of_forall₂ h.fields hf
  exact field.type.resolve_distinct resolved

end RecordSchema.Declared

namespace Schema

theorem nodup_of_checkFields {record : String} {seen seen' : List String} {fields : List FieldDecl}
    (h : checkFields record seen fields = .ok seen') :
    (fields.map FieldDecl.name).Nodup ∧ ∀ f ∈ fields, f.name ∉ seen := by
  induction fields generalizing seen with
  | nil => simp
  | cons f rest ih =>
    rw [checkFields] at h
    split at h
    · cases h
    next new => exact nodup_cons_of_new (mt List.contains_iff_mem.mpr new) (ih h)

theorem declared_of_ofRecord {records : List String} {declaration : RecordDecl} {r : RecordSchema}
    (h : ofRecord records declaration = .ok r) :
    r.declaration = declaration ∧ r.Declared records := by
  obtain ⟨seen, hs, h⟩ := bind_eq_ok.mp h
  obtain ⟨-, -, h⟩ := bind_eq_ok.mp h
  obtain ⟨fields, hf, h⟩ := bind_eq_ok.mp h
  obtain rfl := pure_eq_ok.mp h
  have all : List.Forall₂ (fun (f : FieldDecl) (p : String × Ty) =>
      p.1 = f.name ∧ f.type.resolve records f.line = .ok p.2) declaration.fields fields := by
    refine (mapM_eq_ok.mp hf).imp fun f p hp => ?_
    obtain ⟨type, ht, hp⟩ := bind_eq_ok.mp hp
    obtain rfl := pure_eq_ok.mp hp
    exact ⟨rfl, ht⟩
  have names : fields.map Prod.fst = declaration.fields.map FieldDecl.name :=
    (map_eq_of_forall₂ (all.imp fun f p same => same.1.symm)).symm
  exact ⟨rfl, all, names ▸ (nodup_of_checkFields hs).1⟩

/-- The records of a schema are declared in its program. -/
theorem declared_of_ofProgram {program : Program} {schema : Schema}
    (h : ofProgram program = .ok schema) {r : RecordSchema} (hr : r ∈ schema) :
    r.declaration ∈ program ∧ r.Declared (program.map (·.name)) := by
  obtain ⟨-, -, h⟩ := bind_eq_ok.mp h
  obtain ⟨declaration, hd, made⟩ := exists_of_forall₂ (mapM_eq_ok.mp h) hr
  obtain ⟨rfl, declared⟩ := declared_of_ofRecord made
  exact ⟨hd, declared⟩

/-- The records of a program of which all parts have names have them too. -/
theorem named_of_ofProgram {program : Program} (named : program.Named) {schema : Schema}
    (h : ofProgram program = .ok schema) {r : RecordSchema} (hr : r ∈ schema) :
    r.declaration.Named ∧ r.type.Named := by
  obtain ⟨hd, declared⟩ := declared_of_ofProgram h hr
  exact ⟨named _ hd, declared.named (named _ hd)⟩

end Schema

end Covenant
