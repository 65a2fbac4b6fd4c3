import Covenant.Hash.Sha256
import Covenant.Json.Canonical
import Covenant.Key.Codec
import Covenant.Policy
import Covenant.Ty
/-!
The description of a compiled function that callers and the linker go by, its JSON form and its
hash.
-/

namespace Covenant

/-- The function that checks who may read a record. -/
def readAuthName : String := ".readAuth"

structure Abi where
  contract : String
  function : String
  thisType : Option RecordType
  parameterNames : List String
  parameterTypes : List Ty
  returnType : Option Ty
  /-- the records that the function looks up through references -/
  otherTypes : List RecordType
  /-- the fields of the receiver that the outcome depends on, in order of first use -/
  dependentFields : List (String × Ty)
  /-- the reference fields that are followed on every way through the function -/
  requiredReferences : List String
  callPolicy : Policy
  readPolicy : Policy

namespace Policy

mutual
def decEq : (p q : Policy) → Decidable (p = q)
  | .anyone, .anyone => isTrue rfl
  | .denied, .denied => isTrue rfl
  | .field a, .field b =>
    if h : a = b then isTrue (h ▸ rfl) else isFalse fun e => h (by injection e)
  | .delegate a b c, .delegate a' b' c' =>
    if h : a = a' ∧ b = b' ∧ c = c' then isTrue (h.1 ▸ h.2.1 ▸ h.2.2 ▸ rfl)
    else isFalse fun e => h (by injection e with e₁ e₂ e₃; exact ⟨e₁, e₂, e₃⟩)
  | .key a, .key b =>
    if h : a = b then isTrue (h ▸ rfl) else isFalse fun e => h (by injection e)
  | .anyOf ps, .anyOf qs =>
    match decEqAll ps qs with
    | isTrue h => isTrue (h ▸ rfl)
    | isFalse h => isFalse fun e => h (by injection e)
  | .anyone, .denied | .anyone, .field _ | .anyone, .delegate _ _ _ | .anyone, .key _
  | .anyone, .anyOf _ | .denied, .anyone | .denied, .field _ | .denied, .delegate _ _ _
  | .denied, .key _ | .denied, .anyOf _ | .field _, .anyone | .field _, .denied
  | .field _, .delegate _ _ _ | .field _, .key _ | .field _, .anyOf _ | .delegate _ _ _, .anyone
  | .delegate _ _ _, .denied | .delegate _ _ _, .field _ | .delegate _ _ _, .key _
  | .delegate _ _ _, .anyOf _ | .key _, .anyone | .key _, .denied | .key _, .field _
  | .key _, .delegate _ _ _ | .key _, .anyOf _ | .anyOf _, .anyone | .anyOf _, .denied
  | .anyOf _, .field _ | .anyOf _, .delegate _ _ _ | .anyOf _, .key _ =>
    isFalse fun e => by cases e

def decEqAll : (ps qs : List Policy) → Decidable (ps = qs)
  | [], [] => isTrue rfl
  | [], _ :: _ => isFalse fun e => by cases e
  | _ :: _, [] => isFalse fun e => by cases e
  | p :: ps, q :: qs =>
    match decEq p q with
    | isTrue h =>
      match decEqAll ps qs with
      | isTrue h' => isTrue (h ▸ h' ▸ rfl)
      | isFalse h' => isFalse fun e => h' (by injection e)
    | isFalse h => isFalse fun e => h (by injection e)
end

instance : DecidableEq Policy := decEq

mutual
def toDatum : Policy → Datum
  | .anyone => .record [("kind", .text "anyone")]
  | .denied => .record [("kind", .text "denied")]
  | .field name => .record [("kind", .text "field_match"), ("field", .text name)]
  | .delegate via contract delegateField =>
    .record [("kind", .text "delegate_match"), ("field", .text via), ("contract", .text contract),
      ("delegate_field", .text delegateField)]
  | .key k => .record [("kind", .text "literal_key"), ("key", .text k.toHex)]
  | .anyOf policies =>
    .record [("kind", .text "any_of"), ("policies", .list (toData policies))]

def toData : List Policy → List Datum
  | [] => []
  | p :: rest => p.toDatum :: toData rest
end

end Policy

deriving instance DecidableEq for Abi

namespace Ty

mutual
def toDatum : Ty → Datum
  | .primitive p => .record [("kind", .text "primitive"), ("primitive", .text p.name)]
  | .publicKey => .record [("kind", .text "publickey")]
  | .reference contract =>
    .record [("kind", .text "contractreference"), ("contract", .text contract)]
  | .array element => .record [("kind", .text "array"), ("element", element.toDatum)]
  | .struct name fields =>
    .record [("kind", .text "struct"), ("name", .text name), ("fields", .list (fieldData fields))]

def fieldData : List (String × Ty) → List Datum
  | [] => []
  | (name, t) :: rest =>
    .record [("name", .text name), ("type", t.toDatum)] :: fieldData rest
end

end Ty

namespace Abi

def isReadAuth (abi : Abi) : Bool := abi.function == readAuthName

def otherType? (abi : Abi) (name : String) : Option RecordType :=
  abi.otherTypes.find? fun t => t.name == name

def dependentNames (abi : Abi) : List String := abi.dependentFields.map (·.1)

def optionalType (t : Option Ty) : Datum :=
  match t with
  | none => .null
  | some t => t.toDatum

def texts (names : List String) : Datum := .list (names.map .text)

def toDatum (abi : Abi) : Datum :=
  .record
    [("contract", .text abi.contract), ("function", .text abi.function),
     ("this_type", optionalType (abi.thisType.map RecordType.toTy)),
     ("param_names", texts abi.parameterNames),
     ("param_types", .list (abi.parameterTypes.map Ty.toDatum)),
     ("return_type", optionalType abi.returnType),
     ("other_contract_types", .list (abi.otherTypes.map fun t => t.toTy.toDatum)),
     ("dependent_fields",
       .list (abi.dependentFields.map fun f => .list [.text f.1, f.2.toDatum])),
     ("required_references", texts abi.requiredReferences),
     ("call_policy", abi.callPolicy.toDatum),
     ("read_policy", abi.readPolicy.toDatum)]

def canonical (abi : Abi) : String := Json.write (Json.normalize Text.composed abi.toDatum)

def hash (abi : Abi) : String := Sha256.fingerprint (Text.utf8 abi.canonical)

end Abi

end Covenant
