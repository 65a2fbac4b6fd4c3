import Covenant.Datum.Basic
import Covenant.Hash.Sha256
import Covenant.Number.Decimal
import Covenant.Text.Digit
import Covenant.Text.Quoted
/-!
Data as messages show them.
-/

namespace Covenant

def Key.coordinateBytes (c : Coordinate) : Bytes := Sha256.bigEndian 32 c.val

def Key.shown (k : Key) : String :=
  "Key(x=" ++ Text.Quoted.bytes (coordinateBytes k.x) ++ ", y=" ++
    Text.Quoted.bytes (coordinateBytes k.y) ++ ", curve='secp256k1')"

namespace Datum

/-- Messages write doubles positionally from `0.0001` to below ten to the sixteenth. -/
def floatStyle : Decimal.Style where
  plainFrom := -4
  plainBelow := 16
  infinity := "inf"
  notANumber := "nan"

mutual
def quoted : Datum → String
  | .null => "None"
  | .boolean true => "True"
  | .boolean false => "False"
  | .integer i => Decimal.integer i
  | .float x => floatStyle.write x
  | .text s => Text.Quoted.text s
  | .bytes b => Text.Quoted.bytes b
  | .key k => k.shown
  | .list items => "[" ++ ", ".intercalate (quotedItems items) ++ "]"
  | .record fields => "\x7b" ++ ", ".intercalate (quotedFields fields) ++ "\x7d"

def quotedItems : List Datum → List String
  | [] => []
  | d :: rest => quoted d :: quotedItems rest

def quotedFields : List (String × Datum) → List String
  | [] => []
  | (name, d) :: rest => (Text.Quoted.text name ++ ": " ++ quoted d) :: quotedFields rest
end

mutual
/-- Whether a message can quote a datum: no integer in it has too many digits to be written, and no more
than `room` lists and records are inside one another. -/
def isQuotable (room : Nat) : Datum → Bool
  | .integer i => i.natAbs < Nat.pow 10 Text.digitLimit
  | .list items => 0 < room && areQuotable (room - 1) items
  | .record fields => 0 < room && fieldsAreQuotable (room - 1) fields
  | _ => true

def areQuotable (room : Nat) : List Datum → Bool
  | [] => true
  | d :: rest => isQuotable room d && areQuotable room rest

def fieldsAreQuotable (room : Nat) : List (String × Datum) → Bool
  | [] => true
  | (_, d) :: rest => isQuotable room d && fieldsAreQuotable room rest
end

/-- A datum as it stands in a message: a text is its own message. -/
def shown : Datum → String
  | .text s => s
  | d => d.quoted

end Datum

end Covenant
