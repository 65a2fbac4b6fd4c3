import Covenant.Datum.Basic
import Covenant.Number.Decimal
import Covenant.Text.Hex
/-!
Writing JSON text: members sorted by name, no blanks, characters beyond the ASCII range as they are.
-/

namespace Covenant.Json

/-- JSON text has words for the doubles that are not finite. -/
def floatStyle : Decimal.Style where
  plainFrom := -4
  plainBelow := 16
  infinity := "Infinity"
  notANumber := "NaN"

/-- A character of a string: quote, backslash and controls are escaped. -/
def escaped (c : Char) : List Char :=
  if c = '"' then ['\\', '"']
  else if c = '\\' then ['\\', '\\']
  else if c = '\n' then ['\\', 'n']
  else if c = '\r' then ['\\', 'r']
  else if c = '\t' then ['\\', 't']
  else if c.toNat = 8 then ['\\', 'b']
  else if c.toNat = 12 then ['\\', 'f']
  else if c.toNat < 0x20 then '\\' :: 'u' :: Text.hexNatural 4 c.toNat
  else [c]

def string (s : String) : String := String.ofList ('"' :: s.toList.flatMap escaped ++ ['"'])

def sortFields {α : Type} (fields : List (String × α)) : List (String × α) :=
  fields.mergeSort fun a b => decide (a.1 ≤ b.1)

mutual
/-- The text of a datum. Bytes and keys have none and are written as null. -/
def write : Datum → String
  | .null => "null"
  | .boolean true => "true"
  | .boolean false => "false"
  | .integer i => Decimal.integer i
  | .float x => floatStyle.write x
  | .text s => string s
  | .bytes _ => "null"
  | .key _ => "null"
  | .list items => "[" ++ ",".intercalate (writeItems items) ++ "]"
  | .record fields =>
    "\x7b" ++
      ",".intercalate ((sortFields (writeFields fields)).map fun f => string f.1 ++ ":" ++ f.2) ++
      "\x7d"

def writeItems : List Datum → List String
  | [] => []
  | d :: rest => write d :: writeItems rest

def writeFields : List (String × Datum) → List (String × String)
  | [] => []
  | (name, d) :: rest => (name, write d) :: writeFields rest
end

end Covenant.Json
