import Covenant.Abi
import Covenant.Code.StackWalk
import Covenant.Datum.Arithmetic
/-!
Linking: code is checked against the description of its function, labels become the places that they
mark, and operands become values.
-/

namespace Covenant

structure LinkedFunction where
  abi : Abi
  header : Header
  code : LinkedCode
  fingerprint : String

namespace Code

def checkHeader (abi : Abi) (h : Header) : Except LinkFault Unit :=
  if h.contract ≠ abi.contract ∨ h.function ≠ abi.function then
    .error (.otherFunction h.contract h.function abi.contract abi.function)
  else if h.parameters ≠ abi.parameterTypes.length then
    .error (.parameterCount h.parameters abi.parameterTypes.length)
  else if h.returns ≠ abi.returnType.isSome then .error .result
  else if h.locals < h.parameters then .error .fewLocals
  else .ok ()

/-- The labels and the places that they mark, counting instructions from `place`. -/
def places (place : Nat) (found : List (String × Nat)) :
    Code → Except LinkFault (List (String × Nat))
  | [] => .ok found
  | .instruction _ :: rest => places (place + 1) found rest
  | .label name :: rest =>
    if (found.lookup name).isSome then .error (.duplicateLabel name)
    else places place ((name, place) :: found) rest

def literalValue (kind : PushKind) (operand : Datum) : Except LinkFault Datum :=
  match kind, operand with
  | .primitive .bytes, .text s =>
    match Text.Base64.readStrict s.toList with
    | .ok b => .ok (.bytes b)
    | .error _ => .ok operand
  | .primitive .f32, .integer i | .primitive .f64, .integer i =>
    match (Datum.Number.whole i).toDouble with
    | .ok x => .ok (.float x)
    | .error why => .error (.misuse why)
  | .key, .text s =>
    match Key.ofHex s with
    | .ok key => .ok (.key key)
    | .error fault => .error (.keyOperand fault)
  | _, _ => .ok operand

def linkTarget (labels : List (String × Nat)) (name : String) : Except LinkFault Nat :=
  match labels.lookup name with
  | some place => .ok place
  | none => .error (.undefinedLabel name)

def checkField (abi : Abi) (word name : String) : Except LinkFault Unit :=
  if (abi.thisType.bind (·.field? name)).isSome then .ok () else .error (.unknownField word name)

def checkSlot (header : Header) (slot : Nat) : Except LinkFault Unit :=
  if slot < header.locals then .ok () else .error (.slot slot header.locals)

def linkInstruction (abi : Abi) (header : Header) (labels : List (String × Nat)) :
    Instruction String → Except LinkFault (Instruction Nat)
  | .push kind operand => return .push kind (← literalValue kind operand)
  | .loadThis name => do
    checkField abi "load.this" name
    return .loadThis name
  | .storeThis name => do
    checkField abi "store.this" name
    return .storeThis name
  | .deref contract =>
    if (abi.otherType? contract).isSome then .ok (.deref contract)
    else .error (.unknownRecord contract)
  | .loadLocal slot => do
    checkSlot header slot
    return .loadLocal slot
  | .storeLocal slot => do
    checkSlot header slot
    return .storeLocal slot
  | .loadContext name =>
    if name = "publicKey" then .ok (.loadContext name) else .error (.contextAttribute name)
  | .jump name => return .jump (← linkTarget labels name)
  | .jumpIfFalse name => return .jumpIfFalse (← linkTarget labels name)
  | .jumpIfTrue name => return .jumpIfTrue (← linkTarget labels name)
  | .getField name => .ok (.getField name)
  | .setField name => .ok (.setField name)
  | .arrayNew count => .ok (.arrayNew count)
  | .arrayLength => .ok .arrayLength
  | .arrayGet => .ok .arrayGet
  | .arraySet => .ok .arraySet
  | .arrayPush => .ok .arrayPush
  | .arrayIndexOf => .ok .arrayIndexOf
  | .arrayIncludes => .ok .arrayIncludes
  | .textLength => .ok .textLength
  | .concat => .ok .concat
  | .compare comparison => .ok (.compare comparison)
  | .not => .ok .not
  | .truthy => .ok .truthy
  | .keyMatch => .ok .keyMatch
  | .dup => .ok .dup
  | .drop => .ok .drop
  | .abort => .ok .abort
  | .abortUnauthorized => .ok .abortUnauthorized
  | .leave => .ok .leave
  | .leaveValue => .ok .leaveValue
  | .arith op type => .ok (.arith op type)
  | .loose word operand => .ok (.loose word operand)

def linkAll (abi : Abi) (header : Header) (labels : List (String × Nat)) :
    Code → Except LinkFault (List (Instruction Nat))
  | [] => .ok []
  | .label _ :: rest => linkAll abi header labels rest
  | .instruction i :: rest => do
    let first ← linkInstruction abi header labels i
    return first :: (← linkAll abi header labels rest)

/-- Links code whose header has been checked. -/
def link (abi : Abi) (header : Header) (code : Code) : Except LinkFault LinkedCode := do
  let labels ← places 0 [] code
  let linked := (← linkAll abi header labels code).toArray
  LinkedCode.checkStack linked
  return linked

end Code

namespace Abi

def link (abi : Abi) (text : String) : Except LinkFault LinkedFunction := do
  let (header, code) ← Code.read text
  Code.checkHeader abi header
  let linked ← code.link abi header
  return ⟨abi, header, linked, Sha256.fingerprint (Text.utf8 text)⟩

end Abi

end Covenant
