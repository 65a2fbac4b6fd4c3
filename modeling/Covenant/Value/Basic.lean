import Covenant.Datum.Compare
import Covenant.Ty
/-!
Values of types. Data become values of a type without a check of their scalar parts; `Conforms` says
when a value is one of its type at every depth.
-/

namespace Covenant

inductive Value
  | scalar (type : Primitive) (value : Datum)
  | publicKey (value : Datum)
  | reference (value : Datum)
  | array (items : List Value)
  | struct (fields : List (String × Value))
deriving Inhabited

namespace Value

def null : Datum := .key Key.null

def defaultScalar : Primitive → Datum
  | .boolean => .boolean false
  | .string => .text ""
  | .bytes => .bytes []
  | .f32 | .f64 => .float (.zero false)
  | _ => .integer 0

mutual
/-- The value of a field that nothing is known about. -/
def default : Ty → Value
  | .primitive p => .scalar p (defaultScalar p)
  | .publicKey => .publicKey null
  | .reference _ => .reference (.bytes [])
  | .array _ => .array []
  | .struct _ fields => .struct (defaultFields fields)

def defaultFields : List (String × Ty) → List (String × Value)
  | [] => []
  | (name, t) :: rest => (name, default t) :: defaultFields rest
end

mutual
def toDatum : Value → Datum
  | .scalar _ d | .publicKey d | .reference d => d
  | .array items => .list (itemData items)
  | .struct fields => .record (ofMembers (fieldData fields))

def itemData : List Value → List Datum
  | [] => []
  | v :: rest => v.toDatum :: itemData rest

def fieldData : List (String × Value) → List (String × Datum)
  | [] => []
  | (name, v) :: rest => (name, v.toDatum) :: fieldData rest
end

def memberOf (name : String) : Datum → Except Misuse Datum
  | .record fields =>
    match fields.lookup name with
    | some d => .ok d
    | none => .error .member
  | _ => .error .kind

def ofItems (f : Datum → Except Misuse Value) : List Datum → Except Misuse (List Value)
  | [] => .ok []
  | d :: rest => do
    let v ← f d
    return v :: (← ofItems f rest)

mutual
/-- What the machine computed, as a value of a type; an absent key is the null key. -/
def ofDatum : Ty → Datum → Except Misuse Value
  | .primitive p, d => .ok (.scalar p d)
  | .publicKey, .null => .ok (.publicKey null)
  | .publicKey, d => .ok (.publicKey d)
  | .reference _, d => .ok (.reference d)
  | .array element, d => do return .array (← ofItems (ofDatum element) (← d.parts))
  | .struct _ fields, d => return .struct (← ofFields fields d)

def ofFields : List (String × Ty) → Datum → Except Misuse (List (String × Value))
  | [], _ => .ok []
  | (name, t) :: rest, d => do
    let v ← ofDatum t (← memberOf name d)
    return (name, v) :: (← ofFields rest d)
end

def kindName : Value → String
  | .scalar p _ =>
    match p with
    | .boolean => "BooleanValue"
    | .string => "StringValue"
    | .bytes => "BytesValue"
    | .u32 => "UInt32Value"
    | .u64 => "UInt64Value"
    | .i32 => "Int32Value"
    | .i64 => "Int64Value"
    | .f32 => "Float32Value"
    | .f64 => "Float64Value"
  | .publicKey _ => "PublicKeyValue"
  | .reference _ => "ContractReferenceValue"
  | .array _ => "ArrayValue"
  | .struct _ => "StructValue"

mutual
def same : Value → Value → Bool
  | .scalar p a, .scalar q b => p == q && a.same b
  | .publicKey a, .publicKey b | .reference a, .reference b => a.same b
  | .array as, .array bs => sameItems as bs
  | .struct as, .struct bs => sameFields as bs
  | _, _ => false

def sameItems : List Value → List Value → Bool
  | [], [] => true
  | a :: as, b :: bs => same a b && sameItems as bs
  | _, _ => false

def sameFields : List (String × Value) → List (String × Value) → Bool
  | [], [] => true
  | (n, a) :: as, (m, b) :: bs => n == m && same a b && sameFields as bs
  | _, _ => false
end

end Value

end Covenant
