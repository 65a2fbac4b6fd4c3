import Covenant.CallFault
import Covenant.Datum.Arithmetic
import Covenant.Text.Digit
import Covenant.Json.Canonical
import Covenant.Value.Basic
/-!
Values as JSON data. Integers may also be given as decimal text or as doubles, references as the id
or as a record with one, keys as records or, for the null key, as null. Reading names the path of
the first datum that does not fit.
-/

namespace Covenant.Value

open Json (itemPath)

def refuse {α : Type} (path : String) (why : Unsuitable) : Except CallFault α :=
  .error (.unsuitable path why)

/-- The integer that a datum gives, for a type of integers. -/
def readInteger (p : Primitive) (path : String) : Datum → Except CallFault Int
  | .integer i => .ok i
  | d@(.text s) =>
    match Text.integer? s.toList with
    | some i => .ok i
    | none => refuse path (.notInteger p d)
  | d@(.float x) =>
    match x.toInt? with
    | some i => .ok i
    | none => refuse path (.notInteger p d)
  | .boolean _ => refuse path (.kind p.name "boolean")
  | d => refuse path (.kind p.name d.kindName)

/-- Refuses an integer out of range. The text of one of more digits than may be read cannot be made
either, so there is no message for it. -/
def refuseRange {α : Type} (p : Primitive) (path : String) (i : Int) : Except CallFault α :=
  if i.natAbs < Nat.pow 10 Text.digitLimit then refuse path (.range i p) else .error (.misuse .domain)

/-- The double that a number gives; in single precision it is rounded. -/
def readFloat (p : Primitive) (path : String) (d : Datum) : Except CallFault Double :=
  let rounded (x : Double) := if p = .f32 then x.roundSingle (.place path) else x
  match d with
  | .float x => .ok (rounded x)
  | .integer i =>
    match (Datum.Number.whole i).toDouble with
    | .ok x => .ok (rounded x)
    | .error why => .error (.misuse why)
  | d => refuse path (.kind p.name d.kindName)

def readScalar (p : Primitive) (path : String) (d : Datum) : Except CallFault Datum :=
  match p with
  | .boolean =>
    match d with
    | .boolean _ => .ok d
    | _ => refuse path (.kind "boolean" d.kindName)
  | .string =>
    match d with
    | .text _ => .ok d
    | _ => refuse path (.kind "string" d.kindName)
  | .bytes =>
    match d with
    | .text s =>
      match Text.Base64.readStrict s.toList with
      | .ok b => .ok (.bytes b)
      | .error fault => refuse path (.base64 fault)
    | _ => refuse path .notBase64Text
  | .f32 | .f64 => return .float (← readFloat p path d)
  | _ => do
    let i ← readInteger p path d
    match p.range? with
    | some (low, high) => if low ≤ i ∧ i ≤ high then return .integer i else refuseRange p path i
    | none => return .integer i

def referenceId : Datum → Datum
  | .record fields => (fields.lookup "id").getD .null
  | d => d

/-- Items from a place on, each with its path. -/
def readItems (f : String → Datum → Except CallFault Value) (path : String) (i : Nat) :
    List Datum → Except CallFault (List Value)
  | [] => .ok []
  | d :: rest => do
    let v ← f (itemPath path i) d
    return v :: (← readItems f path (i + 1) rest)

/-- The members that a datum gives for a struct; members of other names are refused. -/
def membersOf (path record : String) (types : List (String × Ty)) (d : Datum) :
    Except CallFault Fields :=
  match d with
  | .record fields =>
    match fields.find? fun f => !(types.map (·.1)).contains f.1 with
    | some f => refuse (path ++ "." ++ f.1) (.unknownField record)
    | none => .ok fields
  | d => refuse path (.kind "object" d.kindName)

mutual
/-- The value of a type that a datum at a path gives. -/
def ofJson (path : String) : Ty → Datum → Except CallFault Value
  | .primitive p, d => return .scalar p (← readScalar p path d)
  | .publicKey, d =>
    match d with
    | .null => .ok (.publicKey null)
    | d =>
      match Key.ofDatum d with
      | .ok key => .ok (.publicKey (.key key))
      | .error .unquotable => .error (.misuse .domain)
      | .error fault => refuse path (.key fault)
  | .reference contract, d =>
    match referenceId d with
    | .text id => .ok (.reference (.bytes (Text.utf8 id)))
    | _ => refuse path (.reference contract)
  | .array element, d =>
    match d with
    | .list items => return .array (← readItems (fun path d => ofJson path element d) path 0 items)
    | d => refuse path (.kind "array" d.kindName)
  | .struct name types, d => do
    let fields ← membersOf path name types d
    return .struct (← ofJsonFields path types fields)

def ofJsonFields (path : String) :
    List (String × Ty) → Fields → Except CallFault (List (String × Value))
  | [], _ => .ok []
  | (name, t) :: rest, fields => do
    match fields.lookup name with
    | none => refuse (path ++ "." ++ name) .missingField
    | some d =>
      let v ← ofJson (path ++ "." ++ name) t d
      return (name, v) :: (← ofJsonFields path rest fields)
end

mutual
def toJson : Value → Except Misuse Datum
  | .scalar .bytes d =>
    match d with
    | .bytes b => .ok (.text (Text.Base64.write Text.Base64.standard b))
    | _ => .error .kind
  | .scalar _ d => .ok d
  | .publicKey d =>
    match d with
    | .key k => .ok (if k.isNull then .null else .record k.toRecord)
    | _ => .error .property
  | .reference d =>
    match d with
    | .bytes id => .ok (.record [("id", .text (Text.ofUtf8 id))])
    | _ => .error .property
  | .array items => return .list (← toJsonItems items)
  | .struct fields => return .record (ofMembers (← toJsonFields fields))

def toJsonItems : List Value → Except Misuse (List Datum)
  | [] => .ok []
  | v :: rest => do
    let d ← v.toJson
    return d :: (← toJsonItems rest)

def toJsonFields : List (String × Value) → Except Misuse (List (String × Datum))
  | [] => .ok []
  | (name, v) :: rest => do
    let d ← v.toJson
    return (name, d) :: (← toJsonFields rest)
end

def survives (t : Ty) (path : String) (v : Value) : Except CallFault Bool :=
  match v.toJson with
  | .ok d => return (← ofJson (path ++ " again") t d).same v
  | .error why => .error (.misuse why)

end Covenant.Value
