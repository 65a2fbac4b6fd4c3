import Covenant.Ty
import Covenant.Datum.Shown
/-!
Why a run ends without a result.
-/

namespace Covenant

inductive Arith
  | add
  | sub
  | mul
  | div
  | mod
  | neg
  /-- an operation that only unchecked code names -/
  | other (name : String)
deriving DecidableEq, Repr

namespace Arith

def name : Arith → String
  | .add => "add"
  | .sub => "sub"
  | .mul => "mul"
  | .div => "div"
  | .mod => "mod"
  | .neg => "neg"
  | .other name => name

def ofName (name : String) : Arith :=
  match [Arith.add, .sub, .mul, .div, .mod, .neg].find? fun a => a.name == name with
  | some a => a
  | none => .other name

end Arith

/-- Where a value is put when it is stored. -/
inductive Place
  | field (name : String)
  | element
deriving DecidableEq, Repr

def Place.describe : Place → String
  | .field name => "'" ++ name ++ "'"
  | .element => "an array element"

inductive Failure
  | stackUnderflow
  | pastEnd
  | unknownOperation (name : String)
  | stepLimit (limit : Datum)
  | unauthorized
  | aborted (message : String)
  | divisionByZero
  | overflow (operation : Arith) (type : Primitive)
  | absentKey (place : Place)
  | outOfBounds (index : Datum) (length : Nat)
  | unsupplied (contract : String) (id : Bytes)
  /-- an operation met data that it has no meaning for -/
  | misuse (why : Misuse)

/-- The text of an error that the language foresees; misuse has none. -/
def Failure.message : Failure → String
  | .stackUnderflow => "Stack underflow"
  | .pastEnd => "Execution ran past the end of the function"
  | .unknownOperation name => "Unknown opcode '" ++ name ++ "'"
  | .stepLimit limit => "Step limit of " ++ limit.shown ++ " exceeded"
  | .unauthorized => "You are not authorized to call this function"
  | .aborted message => message
  | .divisionByZero => "Division by zero"
  | .overflow operation type => "Integer overflow in " ++ operation.name ++ "." ++ type.name
  | .absentKey place => "Cannot store an absent public key in " ++ place.describe
  | .outOfBounds index length =>
    "Array index " ++ index.shown ++ " out of bounds for length " ++ Decimal.natural length
  | .unsupplied contract id =>
    contract ++ " record " ++ Text.Quoted.text (Text.ofUtf8 id) ++ " was not supplied"
  | .misuse _ => ""

def Failure.lift {α : Type} : Except Misuse α → Except Failure α
  | .ok a => .ok a
  | .error why => .error (.misuse why)

end Covenant
