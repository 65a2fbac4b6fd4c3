import Covenant.Datum.Access
import Covenant.Json.Writer
/-!
Records whose members are named by data other than texts. Such a member is held under a name that
stands for all data equal to the one that names it, together with the datum that named it first.
Looking up, walking through and showing a record go by the data that name its members.
-/

namespace Covenant

def Origin.written : Origin → String
  | .literal => "literal"
  | .given index => "given " ++ Decimal.natural index
  | .place path => "place " ++ path
  | .computed index => "computed " ++ Decimal.natural index
  | .carried call index => "carried " ++ Decimal.natural call ++ " " ++ Decimal.natural index

namespace Datum

/-- The character that begins the names of members which data other than texts name. -/
def nameMark : Char := Char.ofNat 0

/-- One text for all doubles and integers of one value. -/
def Number.name : Number → String
  | .whole i => Decimal.integer i
  | .double (.nan origin) => origin.written
  | .double x => ((x.toInt?).map Decimal.integer).getD (floatStyle.write x)

def memberName : Datum → String
  | .text s => s
  | d => String.singleton nameMark ++ match d.number? with
    | some n => n.name
    | none => d.quoted

/-- Whether a name is that of a member which no text names. -/
def isMarked (name : String) : Bool := name.toList.head? == some nameMark

/-- The fields with the member that a datum names replaced, or added at the end. A member keeps the
datum that named it first. -/
def setMember (namer value : Datum) (fields : Fields) : Fields :=
  match namer with
  | .text s => setField s value fields
  | namer =>
    let first := match fields.lookup namer.memberName with
      | some (.list [first, _]) => first
      | _ => namer
    setField namer.memberName (.list [first, value]) fields

def member? (namer : Datum) (fields : Fields) : Except Misuse Datum :=
  if !namer.isAtom then .error .kind
  else match namer, fields.lookup namer.memberName with
    | .text _, some value => .ok value
    | _, some (.list [_, value]) => .ok value
    | _, _ => .error .member

/-- The datum that names a member. -/
def keyOf (field : String × Datum) : Datum :=
  match isMarked field.1, field.2 with
  | true, .list [namer, _] => namer
  | _, _ => .text field.1

/-- What walking through a datum takes it for: a record is the list of what names its members. -/
def walked : Datum → Datum
  | .record fields => .list (fields.map keyOf)
  | d => d

/-- A datum as the name of a member in JSON text. -/
def writtenKey : Datum → String
  | .text s => s
  | d => Json.write d

mutual
/-- The datum with all names of members as they are written. -/
def written : Datum → Datum
  | .list items => .list (writtenItems items)
  | .record fields => .record (writtenFields fields)
  | d => d

def writtenItems : List Datum → List Datum
  | [] => []
  | d :: rest => written d :: writtenItems rest

def writtenFields : List (String × Datum) → List (String × Datum)
  | [] => []
  | (name, d) :: rest =>
    (match isMarked name, written d with
      | true, .list [namer, value] => (writtenKey namer, value)
      | _, value => (name, value)) :: writtenFields rest
end

mutual
/-- The datum as messages show it, text in quotes. -/
def displayed : Datum → String
  | .list items => "[" ++ ", ".intercalate (displayedItems items) ++ "]"
  | .record fields => "\x7b" ++ ", ".intercalate (displayedFields fields) ++ "\x7d"
  | d => d.quoted

def displayedItems : List Datum → List String
  | [] => []
  | d :: rest => displayed d :: displayedItems rest

def displayedFields : List (String × Datum) → List String
  | [] => []
  | (name, .list items) :: rest =>
    (match isMarked name, displayedItems items with
      | true, [namer, value] => namer ++ ": " ++ value
      | _, items => Text.Quoted.text name ++ ": [" ++ ", ".intercalate items ++ "]") ::
      displayedFields rest
  | (name, d) :: rest => (Text.Quoted.text name ++ ": " ++ displayed d) :: displayedFields rest
end

/-- A datum as it stands in a message: a text is its own message. -/
def message : Datum → String
  | .text s => s
  | d => d.displayed

/-- A member of a new record, from something of two parts, the first of which names it. -/
def namedPair (d : Datum) : Except Misuse (Datum × Datum) := do
  match ← d.walked.parts with
  | [namer, value] => if namer.isAtom then return (namer, value) else .error .kind
  | _ => .error .domain

/-- A datum as the members of a new record: those of a record, or pairs. -/
def namedFields : Datum → Except Misuse Fields
  | .record fields => .ok fields
  | d => do
    let pairs ← (← d.parts).mapM namedPair
    return pairs.foldl (fun fields p => setMember p.1 p.2 fields) []

/-- Whether what names a member of a record is the same as a datum; else as `includes`. -/
def includesNamed (d target : Datum) : Except Misuse Bool :=
  match d with
  | .record fields =>
    if target.isAtom then .ok (fields.any fun f => (keyOf f).same target) else .error .kind
  | d => d.includes target

/-- The part at a place, which in a record is the member that the number names. -/
def elementNamed (d index : Datum) : Except Failure Datum :=
  match d with
  | .record fields => do
    checkPlace index d.size
    Failure.lift (index.member? fields)
  | d => d.element index

end Datum

end Covenant
