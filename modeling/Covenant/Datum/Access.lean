import Covenant.Datum.Arithmetic
/-!
Taking data apart and putting them together: members of records, places in lists, searches.
-/

namespace Covenant.Datum

def member (name : String) : Datum → Except Misuse Datum
  | .record fields =>
    match fields.lookup name with
    | some d => .ok d
    | none => .error .member
  | _ => .error .kind

/-- A member of a record from something of two parts, the first of them its name. -/
def pair (d : Datum) : Except Misuse (String × Datum) :=
  match d.parts with
  | .ok [.text name, value] => .ok (name, value)
  | .ok [_, _] => .error .kind
  | .ok _ => .error .domain
  | .error why => .error why

/-- A datum as the members of a new record: those of a record, or pairs. -/
def toFields : Datum → Except Misuse Fields
  | .record fields => .ok fields
  | d => do
    let parts ← d.parts
    return ofMembers (← parts.mapM pair)

def withMember (d : Datum) (name : String) (value : Datum) : Except Misuse Datum := do
  return .record (setField name value (← d.toFields))

/-- Requires that a datum is a place among `length` parts. -/
def checkPlace (index : Datum) (length : Except Misuse Nat) : Except Failure Unit := do
  let i ← Failure.lift index.asNumber
  let n ← Failure.lift length
  let inside := match i.compare (.whole n) with
    | some o => o == .lt
    | none => false
  if i.nonNegative && inside then return () else .error (.outOfBounds index n)

/-- The place in a list that a number names, if it is an integer. -/
def place (index : Datum) : Except Misuse Nat :=
  match index.number? with
  | some (.whole i) => .ok i.toNat
  | _ => .error .kind

/-- The part of a datum at a place. A record has no member that a number names. -/
def element (d index : Datum) : Except Failure Datum := do
  checkPlace index d.size
  match d with
  | .record _ => .error (.misuse .member)
  | _ =>
    let i ← Failure.lift (place index)
    match (← Failure.lift d.parts)[i]? with
    | some part => return part
    | none => .error (.misuse .position)

/-- The parts of a datum as a list, with the one at a place replaced. -/
def withElement (d index value : Datum) : Except Failure Datum := do
  let parts ← Failure.lift d.parts
  checkPlace index (.ok parts.length)
  let i ← Failure.lift (place index)
  return .list (parts.set i value)

/-- The parts of a datum as a list, with one more at the end. -/
def appended (d value : Datum) : Except Misuse Datum := do
  return .list ((← d.parts) ++ [value])

/-- The place of the first part equal to a datum, or -1. -/
def indexOf (d target : Datum) : Except Misuse Datum := do
  match (← d.parts).findIdx? fun part => part.eq target with
  | some i => return .integer i
  | none => return .integer (-1)

/-- Whether one list occurs inside another without gaps. -/
def occursIn {α : Type} [BEq α] (needle : List α) : List α → Bool
  | [] => needle.isEmpty
  | a :: rest => needle.isPrefixOf (a :: rest) || occursIn needle rest

/-- Whether a list has a part that is the same as a datum, a text or bytes a section, or a record
a member of that name. -/
def includes (d target : Datum) : Except Misuse Bool :=
  match d, target with
  | .list items, _ => .ok (items.any fun item => item.same target)
  | .text s, .text part => .ok (occursIn part.toList s.toList)
  | .bytes s, .bytes part => .ok (occursIn part s)
  | .bytes s, _ =>
    match target.number? with
    | some (.whole i) =>
      if 0 ≤ i ∧ i < 256 then .ok (s.contains (UInt8.ofNat i.toNat)) else .error .domain
    | _ => .error .kind
  | .record fields, .text name => .ok (fields.any fun f => f.1 == name)
  | .record _, _ => if target.isAtom then .ok false else .error .kind
  | _, _ => .error .kind

end Covenant.Datum
