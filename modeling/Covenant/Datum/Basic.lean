import Covenant.Key.Curve
import Covenant.Number.Double
import Covenant.Text.Utf8
/-!
Plain data: what call data is made of and what the machine computes with. Records keep their
members in the order of arrival. A text is a sequence of characters, all of which UTF-8 encodes: half of a
surrogate pair alone is no character, and nothing is said of data that hold one.
-/

namespace Covenant

inductive Datum
  | null
  | boolean (value : Bool)
  | integer (value : Int)
  | float (value : Double)
  | text (value : String)
  | bytes (value : Bytes)
  | key (value : Key)
  | list (items : List Datum)
  | record (fields : List (String × Datum))
deriving Inhabited

/-- How many lists and records inside one another are gone through where the stack is bounded: a stack of a
thousand calls has room for about so many. -/
def Datum.nestingLimit : Nat := 992

abbrev Fields := List (String × Datum)

/-- Replaces the member of that name where it stands, or adds one at the end. -/
def setField {α : Type} (name : String) (value : α) : List (String × α) → List (String × α)
  | [] => [(name, value)]
  | (n, v) :: rest => if n = name then (n, value) :: rest else (n, v) :: setField name value rest

/-- A list of members in which a later one takes the place of an earlier one of its name. -/
def ofMembers {α : Type} (members : List (String × α)) : List (String × α) :=
  members.foldl (fun fields m => setField m.1 m.2 fields) []

/-- An operation applied to data that it has no meaning for, by what was wrong with them. -/
inductive Misuse
  /-- data of a kind that the operation does not take -/
  | kind
  /-- data of the right kind and a value outside the operation's domain -/
  | domain
  /-- a number too large for a double -/
  | magnitude
  /-- a record without the member -/
  | member
  /-- a place outside a list -/
  | position
  /-- data without the property asked for -/
  | property
  /-- data that do not fit the width they are written with -/
  | width
deriving DecidableEq, Repr

namespace Datum

def kindName : Datum → String
  | .null => "NoneType"
  | .boolean _ => "bool"
  | .integer _ => "int"
  | .float _ => "float"
  | .text _ => "str"
  | .bytes _ => "bytes"
  | .key _ => "Key"
  | .list _ => "list"
  | .record _ => "dict"

/-- A datum is false when it is null, false, a zero or empty. A key never is. -/
def isTrue : Datum → Bool
  | .null => false
  | .boolean b => b
  | .integer i => i != 0
  | .float x => !x.eq (.zero false)
  | .text s => s != ""
  | .bytes b => !b.isEmpty
  | .key _ => true
  | .list items => !items.isEmpty
  | .record fields => !fields.isEmpty

/-- A datum holds when it is true and no null key. -/
def holds : Datum → Bool
  | .key k => !k.isNull
  | d => d.isTrue

/-- The parts that a datum is walked through by: items, characters, bytes or member names. -/
def parts : Datum → Except Misuse (List Datum)
  | .list items => .ok items
  | .text s => .ok (s.toList.map fun c => .text (String.singleton c))
  | .bytes b => .ok (b.map fun x => .integer x.toNat)
  | .record fields => .ok (fields.map fun f => .text f.1)
  | _ => .error .kind

def size : Datum → Except Misuse Nat
  | .list items => .ok items.length
  | .text s => .ok s.length
  | .bytes b => .ok b.length
  | .record fields => .ok fields.length
  | _ => .error .kind

/-- A datum without parts that a record may be looked up by. -/
def isAtom : Datum → Bool
  | .list _ => false
  | .record _ => false
  | _ => true

end Datum

end Covenant
