import Covenant.Abi
/-!
Reading the description of a function from its JSON form. Members of other names, members of wrong
kinds and missing members are refused; lists, the return type and the policies may be left out. A
literal key may be written in any hexadecimal form.
-/

namespace Covenant

def onlyMembers (allowed : List String) (fields : Fields) : Bool :=
  fields.all fun f => allowed.contains f.1

def textMember? (name : String) (fields : Fields) : Option String :=
  match fields.lookup name with
  | some (.text s) => some s
  | _ => none

def isKind (kind : String) (fields : Fields) : Bool := textMember? "kind" fields == some kind

namespace Ty

mutual
def ofDatum? : Datum → Option Ty
  | .record fields =>
    if isKind "primitive" fields && onlyMembers ["kind", "primitive"] fields then
      ((textMember? "primitive" fields).bind Primitive.ofName?).map .primitive
    else if isKind "publickey" fields && onlyMembers ["kind"] fields then some .publicKey
    else if isKind "contractreference" fields && onlyMembers ["kind", "contract"] fields then
      (textMember? "contract" fields).map .reference
    else if isKind "array" fields && onlyMembers ["kind", "element"] fields then
      (ofMember? "element" fields).map .array
    else if isKind "struct" fields && onlyMembers ["kind", "name", "fields"] fields then
      match textMember? "name" fields, fieldsMember? fields with
      | some name, some parts => some (.struct name parts)
      | _, _ => none
    else none
  | _ => none

def ofMember? (name : String) : List (String × Datum) → Option Ty
  | [] => none
  | (n, d) :: rest => if n = name then ofDatum? d else ofMember? name rest

def fieldsMember? : List (String × Datum) → Option (List (String × Ty))
  | [] => none
  | (n, d) :: rest =>
    if n = "fields" then
      match d with
      | .list items => fieldsOf? items
      | _ => none
    else fieldsMember? rest

def fieldsOf? : List Datum → Option (List (String × Ty))
  | [] => some []
  | .record fields :: rest =>
    if onlyMembers ["name", "type"] fields then
      match textMember? "name" fields, ofMember? "type" fields, fieldsOf? rest with
      | some name, some t, some parts => some ((name, t) :: parts)
      | _, _, _ => none
    else none
  | _ :: _ => none
end

end Ty

/-- The struct of a record, whose kind may be left out. -/
def RecordType.ofDatum? : Datum → Option RecordType
  | .record fields =>
    if (isKind "struct" fields || (fields.lookup "kind").isNone) &&
        onlyMembers ["kind", "name", "fields"] fields then
      match textMember? "name" fields, Ty.fieldsMember? fields with
      | some name, some parts => some ⟨name, parts⟩
      | _, _ => none
    else none
  | _ => none

namespace Policy

mutual
def ofDatum? : Datum → Option Policy
  | .record fields =>
    if isKind "anyone" fields && onlyMembers ["kind"] fields then some .anyone
    else if isKind "denied" fields && onlyMembers ["kind"] fields then some .denied
    else if isKind "field_match" fields && onlyMembers ["kind", "field"] fields then
      (textMember? "field" fields).map .field
    else if isKind "delegate_match" fields &&
        onlyMembers ["kind", "field", "contract", "delegate_field"] fields then
      match textMember? "field" fields, textMember? "contract" fields,
          textMember? "delegate_field" fields with
      | some via, some contract, some delegateField => some (.delegate via contract delegateField)
      | _, _, _ => none
    else if isKind "literal_key" fields && onlyMembers ["kind", "key"] fields then
      match (textMember? "key" fields).map Key.ofHex with
      | some (.ok k) => some (.key k)
      | _ => none
    else if isKind "any_of" fields && onlyMembers ["kind", "policies"] fields then
      (policiesMember? fields).map .anyOf
    else none
  | _ => none

def policiesMember? : List (String × Datum) → Option (List Policy)
  | [] => none
  | (n, d) :: rest =>
    if n = "policies" then
      match d with
      | .list items => ofData? items
      | _ => none
    else policiesMember? rest

def ofData? : List Datum → Option (List Policy)
  | [] => some []
  | d :: rest =>
    match ofDatum? d, ofData? rest with
    | some p, some ps => some (p :: ps)
    | _, _ => none
end

end Policy

namespace Abi

def textOf? : Datum → Option String
  | .text s => some s
  | _ => none

def nullOr {α : Type} (read : Datum → Option α) : Datum → Option (Option α)
  | .null => some none
  | d => (read d).map some

def listOf {α : Type} (read : Datum → Option α) : Datum → Option (List α)
  | .list items => items.mapM read
  | _ => none

def dependentField? : Datum → Option (String × Ty)
  | .list [.text name, t] => (Ty.ofDatum? t).map fun t => (name, t)
  | _ => none

/-- A member that may be left out. -/
def memberOr {α : Type} (fields : Fields) (name : String) (default : α)
    (read : Datum → Option α) : Option α :=
  match fields.lookup name with
  | some d => read d
  | none => some default

def memberNames : List String :=
  ["contract", "function", "this_type", "param_names", "param_types", "return_type",
   "other_contract_types", "dependent_fields", "required_references", "call_policy",
   "read_policy"]

def ofDatum? : Datum → Option Abi
  | .record fields => do
    if !onlyMembers memberNames fields then none
    let contract ← textMember? "contract" fields
    let function ← textMember? "function" fields
    let thisType ← nullOr RecordType.ofDatum? (← fields.lookup "this_type")
    let parameterNames ← memberOr fields "param_names" [] (listOf textOf?)
    let parameterTypes ← memberOr fields "param_types" [] (listOf Ty.ofDatum?)
    let returnType ← memberOr fields "return_type" none (nullOr Ty.ofDatum?)
    let otherTypes ← memberOr fields "other_contract_types" [] (listOf RecordType.ofDatum?)
    let dependentFields ← memberOr fields "dependent_fields" [] (listOf dependentField?)
    let requiredReferences ← memberOr fields "required_references" [] (listOf textOf?)
    let callPolicy ← memberOr fields "call_policy" .denied Policy.ofDatum?
    let readPolicy ← memberOr fields "read_policy" .denied Policy.ofDatum?
    return ⟨contract, function, thisType, parameterNames, parameterTypes, returnType, otherTypes,
      dependentFields, requiredReferences, callPolicy, readPolicy⟩
  | _ => none

end Abi

end Covenant
