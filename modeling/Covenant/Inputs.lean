import Covenant.Abi
import Covenant.Datum.Access
import Covenant.Value.Json
/-!
What a run is given: the caller's key, the receiver with its salts, the arguments and the supplied
records. Of the receiver only the fields that the function depends on are kept; the others become
their defaults.
-/

namespace Covenant

structure SuppliedRecord where
  value : List (String × Value)
  salts : List Nat

structure Inputs where
  abi : Abi
  callerKey : Option Key
  salts : List Nat
  receiver : Option (List (String × Value))
  arguments : List Value
  others : List (String × List SuppliedRecord)

structure Call where
  callerKey : Datum
  salts : Datum
  receiver : Datum
  arguments : Datum
  others : Datum

def Call.empty : Call := ⟨.null, .null, .null, .list [], .null⟩

namespace Inputs

open Value (refuse)
open Json (itemPath)

def misusing {α : Type} : Except Misuse α → Except CallFault α
  | .ok a => .ok a
  | .error why => .error (.misuse why)

def readKey (d : Datum) : Except CallFault (Option Key) :=
  match Key.ofAny d with
  | .ok key => .ok key
  | .error .unquotable => .error (.misuse .domain)
  | .error fault => .error (.key fault)

/-- Salts from a place on, each an integer of eight bytes. -/
def readSaltsFrom (path : String) (i : Nat) : List Datum → Except CallFault (List Nat)
  | [] => .ok []
  | d :: rest =>
    match d with
    | .integer (.ofNat n) =>
      if n < 0x10000000000000000 then return n :: (← readSaltsFrom path (i + 1) rest)
      else refuse (itemPath path i) .salt
    | _ => refuse (itemPath path i) .salt

/-- One salt for each field; zeros when none are given. -/
def readSalts (type : RecordType) (path : String) (d : Datum) : Except CallFault (List Nat) :=
  match d with
  | .null => .ok (List.replicate type.fields.length 0)
  | d => do
    let salts ← misusing d.parts
    if salts.length ≠ type.fields.length then
      refuse path (.saltCount type.fields.length salts.length)
    else readSaltsFrom path 0 salts

def readRecord (type : RecordType) (path : String) (d : Datum) :
    Except CallFault (List (String × Value)) := do
  let fields ← Value.membersOf path type.name type.fields d
  Value.ofJsonFields path type.fields fields

/-- The receiver as far as the function depends on it. -/
def readReceiver (abi : Abi) (type : RecordType) (d : Datum) :
    Except CallFault (List (String × Value)) := do
  let supplied ← match d with
    | .null => pure (Value.defaultFields type.fields)
    | d => readRecord type "this" d
  return type.fields.map fun f =>
    (f.1,
      if abi.dependentNames.contains f.1 then (supplied.lookup f.1).getD (Value.default f.2)
      else Value.default f.2)

/-- The names that messages call the arguments by. -/
def argumentNames (abi : Abi) (count : Nat) : List String :=
  if abi.parameterNames.isEmpty then (List.range count).map (itemPath "args")
  else abi.parameterNames

/-- The value of one argument. It is read at a place below `args`, whatever the parameter is called,
so that its parts are told apart from those of the receiver and of the records. -/
def readArgument (a : String × Ty × Datum) : Except CallFault Value :=
  match Value.ofJson ("args." ++ a.1) a.2.1 a.2.2 with
  | .ok v => .ok v
  | .error fault => .error (fault.below "args.")

def readArguments (abi : Abi) (d : Datum) : Except CallFault (List Value) := do
  let data ← misusing d.parts
  if data.length ≠ abi.parameterTypes.length then
    refuse "args" (.argumentCount abi.parameterTypes.length data.length)
  else
    ((argumentNames abi data.length).zip (abi.parameterTypes.zip data)).mapM readArgument

/-- Whether a datum names a record that the function looks up. -/
def isReferenced (abi : Abi) : Datum → Bool
  | .text name => (abi.otherType? name).isSome
  | _ => false

/-- Records from a place on, each alone or in a pair with its salts. -/
def readRecords (type : RecordType) (path : String) (i : Nat) :
    List Datum → Except CallFault (List SuppliedRecord)
  | [] => .ok []
  | d :: rest => do
    let (record, salts) := match d with
      | .list [record, salts] => (record, salts)
      | d => (d, .null)
    let path' := itemPath path i
    let value ← readRecord type path' record
    let salts ← readSalts type (path' ++ ".salts") salts
    return ⟨value, salts⟩ :: (← readRecords type path (i + 1) rest)

def readOther (supplied : Datum) (type : RecordType) :
    Except CallFault (String × List SuppliedRecord) := do
  let path := "other_records." ++ type.name
  if !(← misusing (supplied.includes (.text type.name))) then
    refuse path (.missingRecords type.name)
  else if (type.field? "id").isNone then refuse path (.noId type.name)
  else
    let items ← misusing (supplied.member type.name)
    return (type.name, ← readRecords type path 0 (← misusing items.parts))

/-- The supplied records of all types that the function looks up, and of no others. -/
def readOthers (abi : Abi) (d : Datum) :
    Except CallFault (List (String × List SuppliedRecord)) := do
  let supplied := if d.isTrue then d else .record []
  match (← misusing supplied.parts).find? fun name => !isReferenced abi name with
  | some name => refuse ("other_records." ++ name.shown) .unreferencedType
  | none => return ofMembers (← abi.otherTypes.mapM (readOther supplied))

def recordId (record : List (String × Value)) : Except Misuse Bytes :=
  match record.lookup "id" with
  | some (.scalar _ d) | some (.publicKey d) | some (.reference d) => .ok (Text.utf8 d.shown)
  | some _ => .error .property
  | none => .error .member

def hasId (id : Bytes) : List SuppliedRecord → Except Misuse Bool
  | [] => .ok false
  | r :: rest => do if (← recordId r.value) = id then return true else hasId id rest

/-- Requires of a field that its reference, if it has one, stands for a supplied record. -/
def checkReference (abi : Abi) (receiver : List (String × Value))
    (others : List (String × List SuppliedRecord)) (field : String × Ty) :
    Except CallFault Unit :=
  match field.2 with
  | .reference contract =>
    match others.lookup contract with
    | none => .ok ()
    | some records =>
      match receiver.lookup field.1 with
      | none => .error (.misuse .member)
      | some (.reference (.bytes id)) => do
        if id = [] then
          if abi.requiredReferences.contains field.1 then
            refuse ("this." ++ field.1) (.emptyReference contract)
        else if !(← misusing (hasId id records)) then
          refuse ("this." ++ field.1) (.unresolved contract id)
      | some _ => .ok ()
  | _ => .ok ()

def ofCall (abi : Abi) (call : Call) : Except CallFault Inputs := do
  let callerKey ← readKey call.callerKey
  let salts ← match abi.thisType with
    | some type => readSalts type "this_salts" call.salts
    | none => pure []
  let receiver ← abi.thisType.mapM fun type => readReceiver abi type call.receiver
  let arguments ← readArguments abi call.arguments
  let others ← readOthers abi call.others
  match receiver with
  | some fields => abi.dependentFields.forM (checkReference abi fields others)
  | none => pure ()
  return ⟨abi, callerKey, salts, receiver, arguments, others⟩

end Inputs

end Covenant
