import Covenant.Abi.Reader
import Covenant.Proofs.Abi
/-!
A description is read back from its JSON form, whatever the order in which members stand.

* `Datum.Matches`: a record that has the members of another one and no others, but for their order;
* `Ty.ofDatum?_of_alike`, `Policy.ofDatum?_of_alike`, `Abi.ofDatum?_of_alike`: what is read from all that is
  alike with a form, if the literal keys are points of the curve;
* `Abi.survives`: so is what the text of a form is read as.
-/

namespace Covenant

open Datum (Alike)

/-- A list is gone through just when each of its parts is. -/
theorem optionMapM_eq_some {α β : Type} {f : α → Option β} {l : List α} {r : List β} :
    l.mapM f = some r ↔ List.Forall₂ (fun a b => f a = some b) l r := by
  induction l generalizing r with
  | nil =>
    rw [List.mapM_nil, List.forall₂_nil_left_iff]
    exact Option.some_inj.trans eq_comm
  | cons a l ih =>
    rw [List.mapM_cons, List.forall₂_cons_left_iff]
    simp only [Option.bind_eq_bind, Option.bind_eq_some_iff, ih, Option.pure_def, Option.some.injEq]
    constructor
    · rintro ⟨b, hb, bs, hbs, rfl⟩
      exact ⟨b, bs, hb, hbs, rfl⟩
    · rintro ⟨b, bs, hb, hbs, rfl⟩
      exact ⟨b, hb, bs, hbs, rfl⟩

/-! ## Records that are alike -/

@[simp] theorem onlyMembers_nil (allowed : List String) : onlyMembers allowed [] = true := rfl

@[simp] theorem onlyMembers_cons (allowed : List String) (m : String × Datum) (rest : Fields) :
    onlyMembers allowed (m :: rest) = (allowed.contains m.1 && onlyMembers allowed rest) := rfl

structure Datum.Matches (fields others : Fields) : Prop where
  only : ∀ allowed, onlyMembers allowed others = onlyMembers allowed fields
  part : ∀ (name : String) {d : Datum}, fields.lookup name = some d →
    ∃ e, others.lookup name = some e ∧ d.Alike id e

namespace Datum

theorem Alike.eq_text {s : String} {d : Datum} (h : (Datum.text s).Alike id d) : d = .text s := by
  cases h with
  | atom => rfl
  | text same => exact congrArg _ same.symm

theorem Alike.eq_null {d : Datum} (h : Datum.null.Alike id d) : d = .null := by
  cases h
  rfl

theorem Alike.exists_list {items : List Datum} {d : Datum} (h : (Datum.list items).Alike id d) :
    ∃ others, d = .list others ∧ List.Forall₂ (Alike id) items others := by
  cases h with
  | atom plain => cases plain
  | list each => exact ⟨_, rfl, each⟩

theorem Alike.exists_record {fields : Fields} {d : Datum} (h : (Datum.record fields).Alike id d)
    (single : (Datum.record fields).Distinct id) : ∃ others, d = .record others ∧ Matches fields others := by
  cases h with
  | atom plain => cases plain
  | @record _ others reordered order names values =>
    have perm : (others.map Prod.fst).Perm (fields.map Prod.fst) := by
      rw [show fields.map Prod.fst = reordered.map Prod.fst from names]
      exact (order.map Prod.fst).symm
    refine ⟨others, rfl, fun allowed => ?_, fun name d held => ?_⟩
    · have all (l : Fields) : onlyMembers allowed l = (l.map Prod.fst).all allowed.contains := by
        rw [List.all_map]
        rfl
      rw [all, all, perm.all_eq]
    · obtain ⟨m, beside⟩ := exists_beside values.length_eq.symm (mem_of_lookup held)
      have same : name = m.1 := List.forall₂_zip (forall₂_of_map_eq names).flip beside
      have own : (name, m.2) ∈ others := same ▸ order.mem_iff.mp (List.of_mem_zip beside).1
      exact ⟨m.2, lookup_of_mem (perm.nodup_iff.mpr single.fields.1) own,
        List.forall₂_zip values.flip beside⟩

namespace Matches

variable {fields others : Fields} (h : Matches fields others) {name : String}

include h in
theorem text {s : String} (held : fields.lookup name = some (.text s)) :
    others.lookup name = some (.text s) := by
  obtain ⟨e, he, alike⟩ := h.part name held
  rw [he, alike.eq_text]

include h in
theorem textMember {s : String} (held : fields.lookup name = some (.text s)) :
    textMember? name others = some s := by
  rw [textMember?, h.text held]

include h in
theorem isKind {k : String} (held : fields.lookup "kind" = some (.text k)) (kind : String) :
    isKind kind others = (k == kind) := by
  rw [Covenant.isKind, h.textMember held]
  rfl

include h in
/-- A member that may be left out is read where it is written. -/
theorem memberOr {α : Type} {a default : α} {d : Datum} {read : Datum → Option α}
    (held : fields.lookup name = some d) (reads : ∀ e, d.Alike id e → read e = some a) :
    Abi.memberOr others name default read = some a := by
  obtain ⟨e, he, alike⟩ := h.part name held
  rw [Abi.memberOr, he]
  exact reads e alike

end Matches

/-- A list that is like the forms of things is read as these things if all parts are. -/
theorem Alike.mapM {α : Type} {form : α → Datum} {read : Datum → Option α} {as : List α} {items : List Datum}
    (each : ∀ a ∈ as, ∀ e, (form a).Alike id e → read e = some a)
    (h : List.Forall₂ (Alike id) (as.map form) items) : items.mapM read = some as := by
  rw [List.forall₂_map_left_iff] at h
  exact optionMapM_eq_some.mpr (forall₂_imp_of_mem h fun a ha e _ alike => each a ha e alike).flip

end Datum

theorem Abi.listOf_of_alike {α : Type} {form : α → Datum} {read : Datum → Option α} {as : List α} {d : Datum}
    (each : ∀ a ∈ as, ∀ e, (form a).Alike id e → read e = some a)
    (h : (Datum.list (as.map form)).Alike id d) : listOf read d = some as := by
  obtain ⟨items, rfl, beside⟩ := h.exists_list
  exact Alike.mapM each beside

/-! ## Types -/

namespace Ty

theorem ofMember?_eq (name : String) (fields : Fields) :
    ofMember? name fields = (fields.lookup name).bind ofDatum? := by
  induction fields with
  | nil => rfl
  | cons m rest ih =>
    obtain ⟨other, d⟩ := m
    rw [ofMember?, List.lookup_cons]
    by_cases same : other = name
    · rw [if_pos same, same, beq_self_eq_true]
      rfl
    · rw [if_neg same, beq_false_of_ne (Ne.symm same), ih]

def fieldOf? : Datum → Option (String × Ty)
  | .record fields =>
    if onlyMembers ["name", "type"] fields then
      match textMember? "name" fields, ofMember? "type" fields with
      | some name, some t => some (name, t)
      | _, _ => none
    else none
  | _ => none

theorem fieldsOf?_eq (items : List Datum) : fieldsOf? items = items.mapM fieldOf? := by
  induction items with
  | nil => rfl
  | cons d rest ih =>
    rw [List.mapM_cons, ← ih]
    cases d with
    | record fields =>
      rw [fieldsOf?, fieldOf?]
      split
      · cases textMember? "name" fields <;> cases ofMember? "type" fields <;> cases fieldsOf? rest <;> rfl
      · rfl
    | _ => rfl

theorem fieldsMember?_eq (fields : Fields) :
    fieldsMember? fields = (fields.lookup "fields").bind (Abi.listOf fieldOf?) := by
  induction fields with
  | nil => rfl
  | cons m rest ih =>
    obtain ⟨other, d⟩ := m
    rw [List.lookup_cons]
    by_cases same : other = "fields"
    · rw [same, beq_self_eq_true]
      cases d with
      | list items => exact fieldsOf?_eq items
      | _ => rfl
    · rw [beq_false_of_ne (Ne.symm same), ← ih]
      cases d <;> exact if_neg same

section

variable {name : String} {fields : List (String × Ty)} {others : Fields}

/-- A field is read from its form if its type is. -/
theorem fieldOf?_of_alike {f : String × Ty} {d : Datum}
    (type : ∀ e, f.2.toDatum.Alike id e → ofDatum? e = some f.2) (h : (fieldDatum f).Alike id d) :
    fieldOf? d = some f := by
  obtain ⟨others, rfl, m⟩ := h.exists_record (distinct_fieldDatum f)
  obtain ⟨e, he, alike⟩ := m.part "type" rfl
  have only : onlyMembers ["name", "type"] others = true := (m.only _).trans rfl
  have name : textMember? "name" others = some f.1 := m.textMember rfl
  have part : ofMember? "type" others = some f.2 := by rw [ofMember?_eq, he, Option.bind_some, type e alike]
  simp only [fieldOf?, only, name, part, if_true]

/-- The fields of a struct are read from its form if their types are. -/
theorem fieldsMember?_of_matches
    (m : Datum.Matches [("kind", .text "struct"), ("name", .text name),
      ("fields", .list (fieldData fields))] others)
    (types : ∀ f ∈ fields, ∀ e, f.2.toDatum.Alike id e → ofDatum? e = some f.2) :
    textMember? "name" others = some name ∧ fieldsMember? others = some fields := by
  obtain ⟨e, he, alike⟩ := m.part "fields" rfl
  rw [fieldData_eq] at alike
  refine ⟨m.textMember rfl, ?_⟩
  rw [fieldsMember?_eq, he, Option.bind_some]
  exact Abi.listOf_of_alike (fun f hf e he => fieldOf?_of_alike (types f hf) he) alike

end

/-- A type is read from its form, and from what is alike. -/
theorem ofDatum?_of_alike {t : Ty} {d : Datum} (h : t.toDatum.Alike id d) : ofDatum? d = some t := by
  induction t using byParts generalizing d with
  | primitive p =>
    obtain ⟨others, rfl, m⟩ := h.exists_record (distinct_toDatum (.primitive p))
    have name : textMember? "primitive" others = some p.name := m.textMember rfl
    rw [ofDatum?]
    simp [m.isKind rfl, m.only, name, Primitive.ofName?_name]
  | publicKey =>
    obtain ⟨others, rfl, m⟩ := h.exists_record (distinct_toDatum .publicKey)
    rw [ofDatum?]
    simp [m.isKind rfl, m.only]
  | reference contract =>
    obtain ⟨others, rfl, m⟩ := h.exists_record (distinct_toDatum (.reference contract))
    have name : textMember? "contract" others = some contract := m.textMember rfl
    rw [ofDatum?]
    simp [m.isKind rfl, m.only, name]
  | array element ih =>
    obtain ⟨others, rfl, m⟩ := h.exists_record (distinct_toDatum (.array element))
    obtain ⟨e, he, alike⟩ := m.part "element" rfl
    rw [ofDatum?]
    simp [m.isKind rfl, m.only, ofMember?_eq, he, ih alike]
  | struct name fields ih =>
    obtain ⟨others, rfl, m⟩ := h.exists_record (distinct_toDatum (.struct name fields))
    obtain ⟨named, parts⟩ := fieldsMember?_of_matches m fun f hf e he => ih f hf he
    rw [ofDatum?]
    simp [m.isKind rfl, m.only, named, parts]

end Ty

/-- A record is read from the form of its struct. -/
theorem RecordType.ofDatum?_of_alike {r : RecordType} {d : Datum} (h : r.toTy.toDatum.Alike id d) :
    ofDatum? d = some r := by
  obtain ⟨others, rfl, m⟩ := h.exists_record r.toTy.distinct_toDatum
  obtain ⟨named, parts⟩ := Ty.fieldsMember?_of_matches m fun f _ e he => Ty.ofDatum?_of_alike he
  rw [ofDatum?]
  simp [m.isKind rfl, m.only, named, parts]

/-! ## Policies -/

namespace Policy

mutual
def keys : Policy → List Key
  | .key k => [k]
  | .anyOf policies => keysOfAll policies
  | _ => []

def keysOfAll : List Policy → List Key
  | [] => []
  | p :: rest => p.keys ++ keysOfAll rest
end

theorem mem_keys_anyOf {k : Key} {policies : List Policy} :
    k ∈ (anyOf policies).keys ↔ ∃ p ∈ policies, k ∈ p.keys := by
  rw [keys]
  induction policies with
  | nil => simp [keysOfAll]
  | cons p rest ih => rw [keysOfAll, List.mem_append, ih, List.exists_mem_cons_iff]

theorem ofData?_eq (items : List Datum) : ofData? items = items.mapM ofDatum? := by
  induction items with
  | nil => rfl
  | cons d rest ih =>
    rw [List.mapM_cons, ← ih, ofData?]
    cases ofDatum? d <;> cases ofData? rest <;> rfl

theorem policiesMember?_eq (fields : Fields) :
    policiesMember? fields = (fields.lookup "policies").bind (Abi.listOf ofDatum?) := by
  induction fields with
  | nil => rfl
  | cons m rest ih =>
    obtain ⟨other, d⟩ := m
    rw [List.lookup_cons]
    by_cases same : other = "policies"
    · rw [same, beq_self_eq_true]
      cases d with
      | list items => exact ofData?_eq items
      | _ => rfl
    · rw [beq_false_of_ne (Ne.symm same), ← ih]
      cases d <;> exact if_neg same

/-- A policy whose literal keys are points is read from its form, and from what is alike. -/
theorem ofDatum?_of_alike {p : Policy} (points : ∀ k ∈ p.keys, k.IsPoint) {d : Datum}
    (h : p.toDatum.Alike id d) : ofDatum? d = some p := by
  induction p using byParts generalizing d with
  | anyone =>
    obtain ⟨others, rfl, m⟩ := h.exists_record (distinct_toDatum .anyone)
    rw [ofDatum?]
    simp [m.isKind rfl, m.only]
  | denied =>
    obtain ⟨others, rfl, m⟩ := h.exists_record (distinct_toDatum .denied)
    rw [ofDatum?]
    simp [m.isKind rfl, m.only]
  | field name =>
    obtain ⟨others, rfl, m⟩ := h.exists_record (distinct_toDatum (.field name))
    have held : textMember? "field" others = some name := m.textMember rfl
    rw [ofDatum?]
    simp [m.isKind rfl, m.only, held]
  | delegate via contract delegateField =>
    obtain ⟨others, rfl, m⟩ := h.exists_record (distinct_toDatum (.delegate via contract delegateField))
    have first : textMember? "field" others = some via := m.textMember rfl
    have second : textMember? "contract" others = some contract := m.textMember rfl
    have third : textMember? "delegate_field" others = some delegateField := m.textMember rfl
    rw [ofDatum?]
    simp [m.isKind rfl, m.only, first, second, third]
  | key k =>
    obtain ⟨others, rfl, m⟩ := h.exists_record (distinct_toDatum (.key k))
    have held : textMember? "key" others = some k.toHex := m.textMember rfl
    have read : Key.ofHex k.toHex = .ok k := Key.ofHex_toHex (points k (by simp [keys]))
    rw [ofDatum?]
    simp [m.isKind rfl, m.only, held, read]
  | anyOf policies ih =>
    obtain ⟨others, rfl, m⟩ := h.exists_record (distinct_toDatum (.anyOf policies))
    obtain ⟨e, he, alike⟩ := m.part "policies" rfl
    rw [toData_eq] at alike
    have each : Abi.listOf ofDatum? e = some policies := Abi.listOf_of_alike (fun p hp e he =>
      ih p hp (fun k hk => points k (mem_keys_anyOf.mpr ⟨p, hp, hk⟩)) he) alike
    rw [ofDatum?]
    simp [m.isKind rfl, m.only, policiesMember?_eq, he, each]

end Policy

/-! ## Descriptions -/

namespace Abi

def keys (abi : Abi) : List Key := abi.callPolicy.keys ++ abi.readPolicy.keys

theorem texts_of_alike {names : List String} {d : Datum} (h : (texts names).Alike id d) :
    listOf textOf? d = some names :=
  listOf_of_alike (fun _ _ _ alike => by rw [alike.eq_text, textOf?]) h

theorem nullOr_of_alike {α : Type} (type : α → Ty) {read : Datum → Option α} {o : Option α} {d : Datum}
    (reads : ∀ a e, (type a).toDatum.Alike id e → read e = some a)
    (h : (optionalType (o.map type)).Alike id d) : nullOr read d = some o := by
  cases o with
  | none =>
    rw [h.eq_null]
    rfl
  | some a =>
    have there : d ≠ .null := by
      rintro rfl
      change (type a).toDatum.Alike id .null at h
      generalize type a = t at h
      cases t <;> cases h
    have other : nullOr read d = (read d).map some := by
      cases d with
      | null => exact absurd rfl there
      | _ => rfl
    rw [other, reads a d h]
    rfl

theorem dependentField?_of_alike {f : String × Ty} {d : Datum}
    (h : (Datum.list [.text f.1, f.2.toDatum]).Alike id d) : dependentField? d = some f := by
  obtain ⟨items, rfl, beside⟩ := h.exists_list
  rw [List.forall₂_cons_left_iff] at beside
  obtain ⟨e, rest, name, beside, rfl⟩ := beside
  rw [List.forall₂_cons_left_iff] at beside
  obtain ⟨e', rest, type, none, rfl⟩ := beside
  rw [List.forall₂_nil_left_iff] at none
  rw [none, name.eq_text, dependentField?, Ty.ofDatum?_of_alike type]
  rfl

/-- A description whose literal keys are points is read from its form, and from what is alike. -/
theorem ofDatum?_of_alike {abi : Abi} (points : ∀ k ∈ abi.keys, k.IsPoint) {d : Datum}
    (h : abi.toDatum.Alike id d) : ofDatum? d = some abi := by
  obtain ⟨others, rfl, m⟩ := h.exists_record abi.distinct_toDatum
  have contract : textMember? "contract" others = some abi.contract := m.textMember rfl
  have function : textMember? "function" others = some abi.function := m.textMember rfl
  obtain ⟨this, held, alike⟩ := m.part "this_type" rfl
  have thisType : nullOr RecordType.ofDatum? this = some abi.thisType :=
    nullOr_of_alike RecordType.toTy (fun _ _ => RecordType.ofDatum?_of_alike) alike
  have names : memberOr others "param_names" [] (listOf textOf?) = some abi.parameterNames :=
    m.memberOr rfl fun _ => texts_of_alike
  have types : memberOr others "param_types" [] (listOf Ty.ofDatum?) = some abi.parameterTypes :=
    m.memberOr rfl fun _ => listOf_of_alike fun _ _ _ => Ty.ofDatum?_of_alike
  have result : memberOr others "return_type" none (nullOr Ty.ofDatum?) = some abi.returnType :=
    m.memberOr rfl fun e alike => nullOr_of_alike id (fun _ _ => Ty.ofDatum?_of_alike)
      (by rwa [Option.map_id_fun, id])
  have records : memberOr others "other_contract_types" [] (listOf RecordType.ofDatum?) =
      some abi.otherTypes :=
    m.memberOr rfl fun _ => listOf_of_alike fun _ _ _ => RecordType.ofDatum?_of_alike
  have dependent : memberOr others "dependent_fields" [] (listOf dependentField?) =
      some abi.dependentFields :=
    m.memberOr rfl fun _ => listOf_of_alike fun _ _ _ => dependentField?_of_alike
  have required : memberOr others "required_references" [] (listOf textOf?) =
      some abi.requiredReferences := m.memberOr rfl fun _ => texts_of_alike
  have call : memberOr others "call_policy" .denied Policy.ofDatum? = some abi.callPolicy :=
    m.memberOr rfl fun _ => Policy.ofDatum?_of_alike fun k hk => points k (List.mem_append_left _ hk)
  have read : memberOr others "read_policy" .denied Policy.ofDatum? = some abi.readPolicy :=
    m.memberOr rfl fun _ => Policy.ofDatum?_of_alike fun k hk => points k (List.mem_append_right _ hk)
  rw [ofDatum?]
  simp [m.only, memberNames, contract, function, held, thisType, names, types, result, records, dependent,
    required, call, read]

end Abi

/-! ## JSON text -/

theorem Datum.Alike.refl (d : Datum) : d.Alike id d := by
  induction d using Datum.byParts with
  | atom d plain => exact .atom plain
  | list items ih => exact .list (List.forall₂_same.mpr ih)
  | record fields ih => exact .record (.refl fields) rfl (List.forall₂_same.mpr ih)

/-- The order of members is all that may differ in what is read of a text. -/
theorem Json.alike_arranged (d : Datum) : d.Alike id (arranged d) := by
  induction d using Datum.byParts with
  | atom d plain =>
    rw [arranged_atom plain]
    exact .atom plain
  | list items ih =>
    rw [arranged_list]
    exact .list (List.forall₂_map_right_iff.mpr (List.forall₂_same.mpr ih))
  | record fields ih =>
    have order : (fields.map fun m => (m.1, arranged m.2)).Perm
        ((sortFields fields).map fun m => (m.1, arranged m.2)) := ((sortFields_perm fields).map _).symm
    rw [arranged_record]
    refine .record order ?_ (List.forall₂_map_right_iff.mpr (List.forall₂_same.mpr ih))
    rw [List.map_map]
    rfl

theorem Datum.inherited_legible : Inherited (Each Json.Legible) where
  null := .atom rfl trivial
  text _ := .atom rfl trivial
  list := .list
  record _ := .record

namespace Abi

/-- A description that is read from its JSON form, from that with its members in any order, and from the text
of it. -/
structure Survives (abi : Abi) : Prop where
  form : ofDatum? abi.toDatum = some abi
  order : ∀ d, abi.toDatum.Alike id d → ofDatum? d = some abi
  text : ∃ d, Json.read (Json.write abi.toDatum).toList = .ok d ∧ ofDatum? d = some abi

theorem survives {abi : Abi} (points : ∀ k ∈ abi.keys, k.IsPoint) : abi.Survives where
  form := ofDatum?_of_alike points (.refl _)
  order _ := ofDatum?_of_alike points
  text := ⟨_, Json.read_write_arranged (abi.inherits Datum.inherited_legible) abi.distinct_toDatum,
    ofDatum?_of_alike points (Json.alike_arranged _)⟩

end Abi

end Covenant
