import Covenant.ErrorCode
import Covenant.Key.Codec
import Covenant.Ty
/-!
Why the data of a call are refused.
-/

namespace Covenant

/-- What is wrong with a datum. -/
inductive Unsuitable
  /-- a datum of another kind than expected -/
  | kind (expected got : String)
  | notInteger (type : Primitive) (datum : Datum)
  | range (value : Int) (type : Primitive)
  | notBase64Text
  | base64 (fault : Text.Base64.Fault)
  | key (fault : KeyFault)
  | reference (contract : String)
  | unknownField (record : String)
  | missingField
  | saltCount (expected got : Nat)
  | salt
  | argumentCount (expected got : Nat)
  | unreferencedType
  | missingRecords (record : String)
  | noId (record : String)
  | emptyReference (contract : String)
  | unresolved (contract : String) (id : Bytes)

def Unsuitable.message : Unsuitable → String
  | .kind expected got => "expected " ++ expected ++ ", got " ++ got
  | .notInteger type (.text s) =>
    "expected " ++ type.name ++ ", got string " ++ Text.Quoted.text s
  | .notInteger type d => "expected " ++ type.name ++ ", got non-integer " ++ d.quoted
  | .range value type => Decimal.integer value ++ " is out of range for " ++ type.name
  | .notBase64Text => "expected base64 string for bytes"
  | .base64 fault => "invalid base64: " ++ fault.message
  | .key fault => fault.message
  | .reference contract =>
    "expected a reference to " ++ contract ++ " (string id or object with 'id')"
  | .unknownField record => "unknown field for " ++ (if record = "" then "object" else record)
  | .missingField => "missing field"
  | .saltCount expected got =>
    "expected " ++ Decimal.natural expected ++ " salt(s), one per field, got " ++
      Decimal.natural got
  | .salt => "salt must be an unsigned 64-bit integer"
  | .argumentCount expected got =>
    "expected " ++ Decimal.natural expected ++ " argument(s), got " ++ Decimal.natural got
  | .unreferencedType => "record type is not referenced by this function"
  | .missingRecords record => "missing records for " ++ record
  | .noId record => "record type " ++ record ++ " has no 'id' field"
  | .emptyReference contract =>
    "reference to " ++ contract ++ " is empty but the call dereferences it"
  | .unresolved contract id =>
    "no " ++ contract ++ " record with id " ++ Text.Quoted.text (Text.ofUtf8 id) ++
      " in other_records"

/-- A refusal: of the datum at a path, of the caller's key, or because of misuse. -/
inductive CallFault
  | unsuitable (path : String) (why : Unsuitable)
  | key (fault : KeyFault)
  | misuse (why : Misuse)

/-- A refusal whose message leaves out where the path starts. -/
def CallFault.below (start : String) : CallFault → CallFault
  | .unsuitable path why => .unsuitable (String.ofList (path.toList.drop start.length)) why
  | fault => fault

def CallFault.message : CallFault → String
  | .unsuitable path why => "Invalid input for '" ++ path ++ "': " ++ why.message
  | .key fault => fault.message
  | .misuse _ => ""

end Covenant
