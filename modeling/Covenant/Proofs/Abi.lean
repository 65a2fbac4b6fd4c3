import Covenant.Abi
import Covenant.Proofs.Json.Worded
import Covenant.Proofs.Key.Codec
/-!
The JSON form of a description tells descriptions apart, whatever the order of its members.

* `Ty.inherits`, `Policy.inherits`, `Abi.inherits`: forms have each property that goes up from texts to lists
  and records;
* `Ty.distinct_toDatum`, `Policy.distinct_toDatum`, `Abi.distinct_toDatum`: no two members of a record have one
  name;
* `Ty.eq_of_alike`, `Policy.eq_of_alike`, `Abi.eq_of_alike`: forms that are alike are of the same.
-/

namespace Covenant

open Datum (Alike)

/-- Things are the same beside each other if those are whose forms are alike. -/
theorem eq_of_forall₂_alike {α : Type} {form : α → Datum} {as bs : List α}
    (each : ∀ a ∈ as, ∀ b, (form a).Alike id (form b) → a = b)
    (h : List.Forall₂ (Alike id) (as.map form) (bs.map form)) : as = bs := by
  rw [List.forall₂_map_left_iff, List.forall₂_map_right_iff] at h
  rw [← List.forall₂_eq_eq_eq]
  exact forall₂_imp_of_mem h fun a ha b _ alike => each a ha b alike

/-- A property of null and of texts that lists have if their items do, and records of different names if
their members do. -/
structure Datum.Inherited (Q : Datum → Prop) : Prop where
  null : Q .null
  text : ∀ s, Q (.text s)
  list : ∀ {items : List Datum}, (∀ d ∈ items, Q d) → Q (.list items)
  record : ∀ {fields : Fields}, (fields.map Prod.fst).Nodup → (∀ m ∈ fields, Q m.2) → Q (.record fields)

theorem Datum.Inherited.map {Q : Datum → Prop} (h : Inherited Q) {α : Type} {form : α → Datum} {as : List α}
    (each : ∀ a ∈ as, Q (form a)) : Q (.list (as.map form)) := h.list (List.forall_mem_map.mpr each)

theorem Datum.inherited_distinct : Inherited (Distinct id) where
  null := distinct_null
  text _ := distinct_text
  list := .list
  record names := .record names

/-! ## Types -/

namespace Primitive

theorem ofName?_name (p : Primitive) : ofName? p.name = some p := by
  cases p <;> rfl

theorem name_injective {p q : Primitive} (h : p.name = q.name) : p = q :=
  Option.some.inj ((ofName?_name p).symm.trans (h ▸ ofName?_name q))

end Primitive

namespace Ty

mutual
/-- Types are made of types. -/
theorem byParts {P : Ty → Prop} (primitive : ∀ p, P (.primitive p)) (publicKey : P .publicKey)
    (reference : ∀ contract, P (.reference contract)) (array : ∀ element, P element → P (.array element))
    (struct : ∀ name fields, (∀ f ∈ fields, P f.2) → P (.struct name fields)) : ∀ t, P t
  | .primitive p => primitive p
  | .publicKey => publicKey
  | .reference contract => reference contract
  | .array element => array element (byParts primitive publicKey reference array struct element)
  | .struct name fields => struct name fields (byFields primitive publicKey reference array struct fields)

theorem byFields {P : Ty → Prop} (primitive : ∀ p, P (.primitive p)) (publicKey : P .publicKey)
    (reference : ∀ contract, P (.reference contract)) (array : ∀ element, P element → P (.array element))
    (struct : ∀ name fields, (∀ f ∈ fields, P f.2) → P (.struct name fields)) :
    ∀ fields : List (String × Ty), ∀ f ∈ fields, P f.2
  | [], _, h => nomatch h
  | (_, first) :: rest, f, h =>
    (List.mem_cons.mp h).elim
      (fun same => same ▸ byParts primitive publicKey reference array struct first)
      (byFields primitive publicKey reference array struct rest f)
end

def fieldDatum (f : String × Ty) : Datum := .record [("name", .text f.1), ("type", f.2.toDatum)]

theorem fieldData_eq (fields : List (String × Ty)) : fieldData fields = fields.map fieldDatum := by
  induction fields with
  | nil => rfl
  | cons f rest ih => rw [fieldData, ih, List.map_cons, fieldDatum]

/-- The form of a type has what goes up from texts. -/
theorem inherits {Q : Datum → Prop} (h : Datum.Inherited Q) (t : Ty) : Q t.toDatum := by
  induction t using byParts with
  | primitive | publicKey | reference => exact h.record (by simp) (by simp [h.text])
  | array element ih => exact h.record (by simp) (by simp [h.text, ih])
  | struct name fields ih =>
    have each : ∀ f ∈ fields, Q (fieldDatum f) := fun f hf => h.record (by simp) (by simp [h.text, ih f hf])
    rw [toDatum, fieldData_eq]
    exact h.record (by simp) (by simp [h.text, h.map each])

theorem distinct_toDatum (t : Ty) : t.toDatum.Distinct id := t.inherits Datum.inherited_distinct

theorem distinct_fieldDatum (f : String × Ty) : (fieldDatum f).Distinct id := by
  simp [fieldDatum, distinct_toDatum]

/-- What the form of a type says of its kind. -/
def kind : Ty → String
  | .primitive _ => "primitive"
  | .publicKey => "publickey"
  | .reference _ => "contractreference"
  | .array _ => "array"
  | .struct _ _ => "struct"

section

variable {t u : Ty} (h : t.toDatum.Alike id u.toDatum)

include h in
theorem part_alike (name : String) {x y : Datum} (hx : t.toDatum.member name = .ok x)
    (hy : u.toDatum.member name = .ok y) : x.Alike id y := h.member name t.distinct_toDatum hx hy

include h in
theorem kind_eq_of_alike : t.kind = u.kind := by
  have named : ∀ t : Ty, t.toDatum.member "kind" = .ok (.text t.kind) := fun t => by cases t <;> rfl
  exact (part_alike h "kind" (named t) (named u)).text_eq

end

/-- Fields of which the forms are alike are the same if their types are. -/
theorem field_eq_of_alike {f g : String × Ty} (types : f.2.toDatum.Alike id g.2.toDatum → f.2 = g.2)
    (h : (fieldDatum f).Alike id (fieldDatum g)) : f = g := by
  have distinct := distinct_fieldDatum f
  have name : (Datum.text f.1).Alike id (.text g.1) := h.member "name" distinct rfl rfl
  exact Prod.ext name.text_eq (types (h.member "type" distinct rfl rfl))

/-- Types of which the forms are alike are the same. -/
theorem eq_of_alike {t u : Ty} (h : t.toDatum.Alike id u.toDatum) : t = u := by
  -- the kinds agree, so only the five cases on the diagonal are left
  have kind := kind_eq_of_alike h
  induction t using byParts generalizing u with
  | primitive p =>
    cases u with
    | primitive q => rw [Primitive.name_injective (part_alike h "primitive" rfl rfl).text_eq]
    | _ => simp [Ty.kind] at kind
  | publicKey =>
    cases u with
    | publicKey => rfl
    | _ => simp [Ty.kind] at kind
  | reference contract =>
    cases u with
    | reference other => rw [(part_alike h "contract" rfl rfl).text_eq]
    | _ => simp [Ty.kind] at kind
  | array element ih =>
    cases u with
    | array other =>
      have alike : element.toDatum.Alike id other.toDatum := part_alike h "element" rfl rfl
      rw [ih alike (kind_eq_of_alike alike)]
    | _ => simp [Ty.kind] at kind
  | struct name fields ih =>
    cases u with
    | struct name' fields' =>
      have names : (Datum.text name).Alike id (.text name') := part_alike h "name" rfl rfl
      have each : (Datum.list (fieldData fields)).Alike id (.list (fieldData fields')) :=
        part_alike h "fields" rfl rfl
      rw [fieldData_eq, fieldData_eq] at each
      have same : fields = fields' := eq_of_forall₂_alike (fun f hf g =>
        field_eq_of_alike fun alike => ih f hf alike (kind_eq_of_alike alike)) each.items
      rw [names.text_eq, same]
    | _ => simp [Ty.kind] at kind

end Ty

/-! ## Policies -/

namespace Policy

mutual
/-- Policies are made of policies. -/
theorem byParts {P : Policy → Prop} (anyone : P .anyone) (denied : P .denied)
    (field : ∀ name, P (.field name))
    (delegate : ∀ via contract delegateField, P (.delegate via contract delegateField))
    (key : ∀ k, P (.key k)) (anyOf : ∀ policies, (∀ p ∈ policies, P p) → P (.anyOf policies)) : ∀ p, P p
  | .anyone => anyone
  | .denied => denied
  | .field name => field name
  | .delegate via contract delegateField => delegate via contract delegateField
  | .key k => key k
  | .anyOf policies => anyOf policies (byMembers anyone denied field delegate key anyOf policies)

theorem byMembers {P : Policy → Prop} (anyone : P .anyone) (denied : P .denied)
    (field : ∀ name, P (.field name))
    (delegate : ∀ via contract delegateField, P (.delegate via contract delegateField))
    (key : ∀ k, P (.key k)) (anyOf : ∀ policies, (∀ p ∈ policies, P p) → P (.anyOf policies)) :
    ∀ policies : List Policy, ∀ p ∈ policies, P p
  | [], _, h => nomatch h
  | first :: rest, p, h =>
    (List.mem_cons.mp h).elim (fun same => same ▸ byParts anyone denied field delegate key anyOf first)
      (byMembers anyone denied field delegate key anyOf rest p)
end

theorem toData_eq (policies : List Policy) : toData policies = policies.map toDatum := by
  induction policies with
  | nil => rfl
  | cons p rest ih => rw [toData, ih, List.map_cons]

/-- The form of a policy has what goes up from texts. -/
theorem inherits {Q : Datum → Prop} (h : Datum.Inherited Q) (p : Policy) : Q p.toDatum := by
  induction p using byParts with
  | anyone | denied | field | delegate | key => exact h.record (by simp) (by simp [h.text])
  | anyOf policies ih =>
    rw [toDatum, toData_eq]
    exact h.record (by simp) (by simp [h.text, h.map ih])

theorem distinct_toDatum (p : Policy) : p.toDatum.Distinct id := p.inherits Datum.inherited_distinct

/-- What the form of a policy says of its kind. -/
def kind : Policy → String
  | .anyone => "anyone"
  | .denied => "denied"
  | .field _ => "field_match"
  | .delegate _ _ _ => "delegate_match"
  | .key _ => "literal_key"
  | .anyOf _ => "any_of"

section

variable {p q : Policy} (h : p.toDatum.Alike id q.toDatum)

include h in
theorem part_alike (name : String) {x y : Datum} (hx : p.toDatum.member name = .ok x)
    (hy : q.toDatum.member name = .ok y) : x.Alike id y := h.member name p.distinct_toDatum hx hy

include h in
theorem kind_eq_of_alike : p.kind = q.kind := by
  have named : ∀ p : Policy, p.toDatum.member "kind" = .ok (.text p.kind) := fun p => by cases p <;> rfl
  exact (part_alike h "kind" (named p) (named q)).text_eq

end

/-- Policies of which the forms are alike are the same. -/
theorem eq_of_alike {p q : Policy} (h : p.toDatum.Alike id q.toDatum) : p = q := by
  have kind := kind_eq_of_alike h
  induction p using byParts generalizing q with
  | anyone =>
    cases q with
    | anyone => rfl
    | _ => simp [Policy.kind] at kind
  | denied =>
    cases q with
    | denied => rfl
    | _ => simp [Policy.kind] at kind
  | field name =>
    cases q with
    | field other => rw [(part_alike h "field" rfl rfl).text_eq]
    | _ => simp [Policy.kind] at kind
  | delegate via contract delegateField =>
    cases q with
    | delegate via' contract' delegateField' =>
      rw [(part_alike h "field" rfl rfl).text_eq, (part_alike h "contract" rfl rfl).text_eq,
        (part_alike h "delegate_field" rfl rfl).text_eq]
    | _ => simp [Policy.kind] at kind
  | key k =>
    cases q with
    | key other => rw [Key.toHex_injective (part_alike h "key" rfl rfl).text_eq]
    | _ => simp [Policy.kind] at kind
  | anyOf policies ih =>
    cases q with
    | anyOf others =>
      have each : (Datum.list (toData policies)).Alike id (.list (toData others)) :=
        part_alike h "policies" rfl rfl
      rw [toData_eq, toData_eq] at each
      have same : policies = others := eq_of_forall₂_alike
        (fun p hp q alike => ih p hp alike (kind_eq_of_alike alike)) each.items
      rw [same]
    | _ => simp [Policy.kind] at kind

end Policy

/-! ## Descriptions -/

theorem RecordType.toTy_injective {r r' : RecordType} (h : r.toTy = r'.toTy) : r = r' := by
  cases r
  cases r'
  cases h
  rfl

namespace Abi

theorem eq_of_alike_texts {names others : List String} (h : (texts names).Alike id (texts others)) :
    names = others := eq_of_forall₂_alike (fun _ _ _ alike => alike.text_eq) h.items

theorem eq_of_alike_types {types others : List Ty}
    (h : (Datum.list (types.map Ty.toDatum)).Alike id (.list (others.map Ty.toDatum))) : types = others :=
  eq_of_forall₂_alike (fun _ _ _ alike => Ty.eq_of_alike alike) h.items

theorem eq_of_alike_optionalType {t u : Option Ty} (h : (optionalType t).Alike id (optionalType u)) :
    t = u := by
  cases t with
  | none =>
    cases u with
    | none => rfl
    | some u => cases u <;> cases h
  | some t =>
    cases u with
    | none => cases t <;> cases h
    | some u => rw [Ty.eq_of_alike h]

theorem eq_of_alike_records {records others : List RecordType}
    (h : (Datum.list (records.map fun r => r.toTy.toDatum)).Alike id
      (.list (others.map fun r => r.toTy.toDatum))) : records = others :=
  eq_of_forall₂_alike (fun _ _ _ alike => RecordType.toTy_injective (Ty.eq_of_alike alike)) h.items

theorem eq_of_alike_fields {fields others : List (String × Ty)}
    (h : (Datum.list (fields.map fun f => .list [.text f.1, f.2.toDatum])).Alike id
      (.list (others.map fun f => .list [.text f.1, f.2.toDatum]))) : fields = others := by
  refine eq_of_forall₂_alike (fun f _ g alike => ?_) h.items
  have both := alike.items
  rw [List.forall₂_cons, List.forall₂_cons] at both
  exact Prod.ext both.1.text_eq (Ty.eq_of_alike both.2.1)

/-- The form of a description has what goes up from null and from texts. -/
theorem inherits {Q : Datum → Prop} (h : Datum.Inherited Q) (abi : Abi) : Q abi.toDatum := by
  have named (names : List String) : Q (texts names) := h.map fun s _ => h.text s
  have optional (t : Option Ty) : Q (optionalType t) := by
    cases t with
    | none => exact h.null
    | some t => exact t.inherits h
  have types : Q (.list (abi.parameterTypes.map Ty.toDatum)) := h.map fun t _ => t.inherits h
  have records : Q (.list (abi.otherTypes.map fun r => r.toTy.toDatum)) := h.map fun r _ => r.toTy.inherits h
  have dependent : Q (.list (abi.dependentFields.map fun f => .list [.text f.1, f.2.toDatum])) :=
    h.map fun f _ => h.list (by simp [h.text, f.2.inherits h])
  refine h.record (by simp) ?_
  simp [h.text, named, optional, types, records, dependent, Policy.inherits h]

theorem distinct_toDatum (abi : Abi) : abi.toDatum.Distinct id := abi.inherits Datum.inherited_distinct

/-- Descriptions of which the forms are alike are the same. -/
theorem eq_of_alike {a b : Abi} (h : a.toDatum.Alike id b.toDatum) : a = b := by
  have part : ∀ (name : String) {x y : Datum}, a.toDatum.member name = .ok x →
      b.toDatum.member name = .ok y → x.Alike id y := fun name => h.member name a.distinct_toDatum
  have contract := (part "contract" rfl rfl).text_eq
  have function := (part "function" rfl rfl).text_eq
  have this := eq_of_alike_optionalType (part "this_type" rfl rfl)
  have names := eq_of_alike_texts (part "param_names" rfl rfl)
  have types := eq_of_alike_types (part "param_types" rfl rfl)
  have result := eq_of_alike_optionalType (part "return_type" rfl rfl)
  have others := eq_of_alike_records (part "other_contract_types" rfl rfl)
  have dependent := eq_of_alike_fields (part "dependent_fields" rfl rfl)
  have required := eq_of_alike_texts (part "required_references" rfl rfl)
  have call := Policy.eq_of_alike (part "call_policy" rfl rfl)
  have read := Policy.eq_of_alike (part "read_policy" rfl rfl)
  have thisType : a.thisType = b.thisType :=
    Option.map_injective (fun _ _ => RecordType.toTy_injective) this
  cases a
  cases b
  exact (Abi.mk.injEq ..).mpr
    ⟨contract, function, thisType, names, types, result, others, dependent, required, call, read⟩

end Abi

end Covenant
