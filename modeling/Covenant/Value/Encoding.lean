import Covenant.Datum.Arithmetic
import Covenant.Hash.Sha256
import Covenant.Value.Basic
/-!
The byte form of values and the commitments to them. A tag tells the kind of value, a length goes
before what has no fixed width, so that no two values have byte forms of which one begins the other.
-/

namespace Covenant.Value

open Sha256 (bigEndian)

def counted (b : Bytes) : Bytes := bigEndian 8 b.length ++ b

/-- An integer in two's complement of a number of bytes, if it is in range. -/
def integerBytes (width : Nat) (low high : Int) (d : Datum) : Except Misuse Bytes :=
  match d.number? with
  | some (.whole i) =>
    if low ≤ i ∧ i ≤ high then
      .ok (bigEndian width (i % ((1 <<< (8 * width) : Nat) : Int)).toNat)
    else .error .width
  | _ => .error .width

def doubleOf (d : Datum) : Except Misuse Double :=
  match d.number? with
  | some n =>
    match n.toDouble with
    | .ok x => .ok x
    | .error _ => .error .width
  | none => .error .width

def scalarBytes (p : Primitive) (d : Datum) : Except Misuse Bytes :=
  match p with
  | .boolean => .ok [1, if d.isTrue then 1 else 0]
  | .string =>
    match d with
    | .text s => .ok (2 :: counted (Text.utf8 s))
    | _ => .error .property
  | .bytes =>
    match d with
    | .bytes b => .ok (3 :: counted b)
    | _ => .error .kind
  | .u32 => return 4 :: (← integerBytes 4 0 0xffffffff d)
  | .u64 => return 5 :: (← integerBytes 8 0 0xffffffffffffffff d)
  | .i32 => return 6 :: (← integerBytes 4 (-0x80000000) 0x7fffffff d)
  | .i64 => return 7 :: (← integerBytes 8 (-0x8000000000000000) 0x7fffffffffffffff d)
  | .f32 => do
    match (← doubleOf d).singleBits with
    | some bits => return 8 :: bigEndian 4 bits
    | none => .error .magnitude
  | .f64 => return 9 :: bigEndian 8 (← doubleOf d).toBits

mutual
def encode : Value → Except Misuse Bytes
  | .scalar p d => scalarBytes p d
  | .publicKey d =>
    match d with
    | .key k => .ok (10 :: Key.coordinateBytes k.x ++ Key.coordinateBytes k.y)
    | _ => .error .property
  | .reference d =>
    match d with
    | .bytes id => .ok (11 :: counted id)
    | _ => .error .kind
  | .array items => return 12 :: bigEndian 8 items.length ++ (← encodeItems items)
  | .struct fields => return 13 :: bigEndian 8 fields.length ++ (← encodeFields fields)

def encodeItems : List Value → Except Misuse Bytes
  | [] => .ok []
  | v :: rest => do
    let b ← v.encode
    return b ++ (← encodeItems rest)

def encodeFields : List (String × Value) → Except Misuse Bytes
  | [] => .ok []
  | (name, v) :: rest => do
    let b ← v.encode
    return counted (Text.utf8 name) ++ b ++ (← encodeFields rest)
end

/-- A hash as four words of eight bytes. -/
abbrev Words := List Nat

def words? (b : Bytes) : Option Words :=
  if b.length = 32 then
    some ((List.range 4).map fun i =>
      ((b.drop (8 * i)).take 8).foldl (fun n x => n * 256 + x.toNat) 0)
  else none

def wordsOf (message : Bytes) : Words := (words? (Sha256.digest message)).getD []

def fieldDomain : Bytes := Text.utf8 "contractvm/field/v1" ++ [0]

def valueDomain : Bytes := Text.utf8 "contractvm/value/v1" ++ [0]

def commitField (contract field : String) (salt : Int) (v : Value) : Except Misuse Words := do
  let salt ← integerBytes 8 0 0xffffffffffffffff (.integer salt)
  let encoded ← v.encode
  return wordsOf (fieldDomain ++ counted (Text.utf8 contract) ++ counted (Text.utf8 field) ++
    salt ++ encoded)

/-- The commitment to a value alone. -/
def commit (v : Value) : Except Misuse Words := do
  return wordsOf (valueDomain ++ (← v.encode))

end Covenant.Value
