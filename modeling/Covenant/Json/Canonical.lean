import Covenant.Json.Writer
import Covenant.Text.Composed
import Covenant.Text.Digit
/-!
Canonical JSON text: all text in composed form, members sorted, and no doubles. Members whose names
have one composed form become one, that of the greatest name.
-/

namespace Covenant.Json

/-- The name of a member: a text, or something else by its kind. -/
inductive MemberName
  | text (value : String)
  | foreign (kind : String)
deriving DecidableEq, Repr

/-- What canonical text may be asked for. -/
inductive Candidate
  | null
  | boolean (value : Bool)
  | integer (value : Int)
  | float (value : Double)
  | text (value : String)
  /-- anything that is no JSON value, by its kind -/
  | foreign (kind : String)
  /-- items in a list, or in a sequence of fixed length -/
  | sequence (fixed : Bool) (items : List Candidate)
  | record (members : List (MemberName × Candidate))
deriving Inhabited

/-- What has no canonical text, and where it stands. -/
inductive Unfit
  | float (path : String)
  | foreign (path : String) (kind : String)
  /-- a member of the record at a path whose name is no text -/
  | name (path : String) (kind : String)
  /-- an integer, wherever it stands, with more digits than are written -/
  | tooLong
deriving DecidableEq, Repr

def shownPath (path : String) : String := if path = "" then "<root>" else path

def Unfit.message : Unfit → String
  | .float path => "Floats are not allowed (at " ++ shownPath path ++ ")"
  | .foreign path kind =>
    "Non-JSON type at " ++ shownPath path ++ ": " ++ kind ++
      ". Only None, bool, int, str, dict, and list are allowed."
  | .name path kind => "Dictionary keys must be strings at " ++ path ++ ", got " ++ kind
  | .tooLong => ""

def memberPath (path name : String) : String := if path = "" then name else path ++ "." ++ name

def itemPath (path : String) (i : Nat) : String := path ++ "[" ++ Decimal.natural i ++ "]"

namespace Candidate

mutual
/-- A datum as a candidate; bytes and keys are no JSON values. -/
def ofDatum : Datum → Candidate
  | .null => .null
  | .boolean b => .boolean b
  | .integer i => .integer i
  | .float x => .float x
  | .text s => .text s
  | .bytes b => .foreign (Datum.bytes b).kindName
  | .key k => .foreign (Datum.key k).kindName
  | .list items => .sequence false (ofItems items)
  | .record fields => .record (ofFields fields)

def ofItems : List Datum → List Candidate
  | [] => []
  | d :: rest => ofDatum d :: ofItems rest

def ofFields : List (String × Datum) → List (MemberName × Candidate)
  | [] => []
  | (name, d) :: rest => (.text name, ofDatum d) :: ofFields rest
end

mutual
/-- The datum that a candidate is, or the first part of it that has no canonical text. -/
def datum (path : String) : Candidate → Except Unfit Datum
  | .null => .ok .null
  | .boolean b => .ok (.boolean b)
  | .integer i => .ok (.integer i)
  | .float _ => .error (.float path)
  | .text s => .ok (.text s)
  | .foreign kind => .error (.foreign path kind)
  | .sequence _ items => do
    return .list (← itemData path 0 items)
  | .record members => do
    return .record (← memberData path members)

def itemData (path : String) (i : Nat) : List Candidate → Except Unfit (List Datum)
  | [] => .ok []
  | c :: rest => do
    let d ← c.datum (itemPath path i)
    return d :: (← itemData path (i + 1) rest)

def memberData (path : String) :
    List (MemberName × Candidate) → Except Unfit (List (String × Datum))
  | [] => .ok []
  | (.foreign kind, _) :: _ => .error (.name path kind)
  | (.text name, c) :: rest => do
    let d ← c.datum (memberPath path name)
    return (name, d) :: (← memberData path rest)
end

end Candidate

mutual
/-- The datum with all text in the form that `form` gives. -/
def normalize (form : String → String) : Datum → Datum
  | .text s => .text (form s)
  | .list items => .list (normalizeItems form items)
  | .record fields =>
    let sorted := sortFields (normalizeFields form fields)
    .record (ofMembers (sorted.map fun f => (form f.1, f.2)))
  | d => d

def normalizeItems (form : String → String) : List Datum → List Datum
  | [] => []
  | d :: rest => normalize form d :: normalizeItems form rest

def normalizeFields (form : String → String) : List (String × Datum) → List (String × Datum)
  | [] => []
  | (name, d) :: rest => (name, normalize form d) :: normalizeFields form rest
end

mutual
/-- Whether no integer in a datum has too many digits to be written. -/
def isWritten : Datum → Bool
  | .integer i => (Decimal.digits i.natAbs).length ≤ Text.digitLimit
  | .list items => areWritten items
  | .record fields => fieldsAreWritten fields
  | _ => true

def areWritten : List Datum → Bool
  | [] => true
  | d :: rest => isWritten d && areWritten rest

def fieldsAreWritten : List (String × Datum) → Bool
  | [] => true
  | (_, d) :: rest => isWritten d && fieldsAreWritten rest
end

/-- The canonical text of a candidate, with all text in the form that `form` gives. -/
def canonicalText (form : String → String) (c : Candidate) : Except Unfit String := do
  let d := normalize form (← c.datum "")
  if isWritten d then return write d else .error .tooLong

def canonical (d : Datum) : Except Unfit String := canonicalText Text.composed (.ofDatum d)

end Covenant.Json
