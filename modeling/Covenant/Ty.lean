/-!
Types of fields, parameters and results.
-/

namespace Covenant

inductive Primitive
  | boolean
  | string
  | bytes
  | u32
  | u64
  | i32
  | i64
  | f32
  | f64
deriving DecidableEq, Repr

namespace Primitive

def all : List Primitive := [.boolean, .string, .bytes, .u32, .u64, .i32, .i64, .f32, .f64]

def name : Primitive → String
  | .boolean => "boolean"
  | .string => "string"
  | .bytes => "bytes"
  | .u32 => "u32"
  | .u64 => "u64"
  | .i32 => "i32"
  | .i64 => "i64"
  | .f32 => "f32"
  | .f64 => "f64"

def ofName? (name : String) : Option Primitive := all.find? fun p => p.name == name

/-- The least and the greatest integer of a type of integers. -/
def range? : Primitive → Option (Int × Int)
  | .u32 => some (0, 0xffffffff)
  | .u64 => some (0, 0xffffffffffffffff)
  | .i32 => some (-0x80000000, 0x7fffffff)
  | .i64 => some (-0x8000000000000000, 0x7fffffffffffffff)
  | _ => none

def isInteger (p : Primitive) : Bool := p.range?.isSome

def isFloat : Primitive → Bool
  | .f32 => true
  | .f64 => true
  | _ => false

def isNumeric (p : Primitive) : Bool := p.isInteger || p.isFloat

/-- Numbers that can be negated. -/
def isSigned : Primitive → Bool
  | .i32 => true
  | .i64 => true
  | p => p.isFloat

end Primitive

/-- A type. A reference is to a record of the named contract; a struct without a name is written
in place. -/
inductive Ty
  | primitive (p : Primitive)
  | publicKey
  | reference (contract : String)
  | array (element : Ty)
  | struct (name : String) (fields : List (String × Ty))
deriving Inhabited

namespace Ty

abbrev boolean : Ty := .primitive .boolean
abbrev string : Ty := .primitive .string
abbrev u32 : Ty := .primitive .u32
abbrev i32 : Ty := .primitive .i32

mutual
def decEq : (s t : Ty) → Decidable (s = t)
  | .primitive p, .primitive q =>
    if h : p = q then isTrue (h ▸ rfl) else isFalse fun e => h (by injection e)
  | .publicKey, .publicKey => isTrue rfl
  | .reference a, .reference b =>
    if h : a = b then isTrue (h ▸ rfl) else isFalse fun e => h (by injection e)
  | .array s, .array t =>
    match decEq s t with
    | isTrue h => isTrue (h ▸ rfl)
    | isFalse h => isFalse fun e => h (by injection e)
  | .struct a fs, .struct b gs =>
    if h : a = b then
      match decEqFields fs gs with
      | isTrue h' => isTrue (h ▸ h' ▸ rfl)
      | isFalse h' => isFalse fun e => h' (by injection e)
    else isFalse fun e => h (by injection e)
  | .primitive _, .publicKey | .primitive _, .reference _ | .primitive _, .array _
  | .primitive _, .struct _ _ | .publicKey, .primitive _ | .publicKey, .reference _
  | .publicKey, .array _ | .publicKey, .struct _ _ | .reference _, .primitive _
  | .reference _, .publicKey | .reference _, .array _ | .reference _, .struct _ _
  | .array _, .primitive _ | .array _, .publicKey | .array _, .reference _ | .array _, .struct _ _
  | .struct _ _, .primitive _ | .struct _ _, .publicKey | .struct _ _, .reference _
  | .struct _ _, .array _ => isFalse fun e => by cases e

def decEqFields : (fs gs : List (String × Ty)) → Decidable (fs = gs)
  | [], [] => isTrue rfl
  | [], _ :: _ => isFalse fun e => by cases e
  | _ :: _, [] => isFalse fun e => by cases e
  | (a, s) :: fs, (b, t) :: gs =>
    if h : a = b then
      match decEq s t with
      | isTrue hs =>
        match decEqFields fs gs with
        | isTrue hf => isTrue (h ▸ hs ▸ hf ▸ rfl)
        | isFalse hf => isFalse fun e => hf (by injection e)
      | isFalse hs => isFalse fun e => hs (by injection e with e _; injection e)
    else isFalse fun e => h (by injection e with e _; injection e)
end

instance : DecidableEq Ty := decEq

def primitive? : Ty → Option Primitive
  | .primitive p => some p
  | _ => none

def isNumeric (t : Ty) : Bool := t.primitive?.any Primitive.isNumeric

def isInteger (t : Ty) : Bool := t.primitive?.any Primitive.isInteger

mutual
def describe : Ty → String
  | .primitive p => p.name
  | .publicKey => "PublicKey"
  | .reference contract => contract
  | .array element => element.describe ++ "[]"
  | .struct _ [] => "\x7b\x7d"
  | .struct _ (f :: fs) => "\x7b " ++ " ".intercalate (describeFields (f :: fs)) ++ " \x7d"

def describeFields : List (String × Ty) → List String
  | [] => []
  | (name, t) :: rest => (name ++ ": " ++ t.describe ++ ";") :: describeFields rest
end

/-- The text for a result type, or its absence. -/
def describeResult : Option Ty → String
  | none => "void"
  | some t => t.describe

end Ty

structure RecordType where
  name : String
  fields : List (String × Ty)
deriving DecidableEq

namespace RecordType

def toTy (r : RecordType) : Ty := .struct r.name r.fields

def field? (r : RecordType) (name : String) : Option Ty := r.fields.lookup name

def fieldNames (r : RecordType) : List String := r.fields.map (·.1)

end RecordType

end Covenant
