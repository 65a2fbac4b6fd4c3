import Covenant.Datum.Shown
import Covenant.Text.Base64
import Covenant.Text.Blank
/-!
Written forms of keys: a record with base 64 coordinates, 64 bytes of both coordinates in
hexadecimal, 33 bytes with the parity of the second one and the first, and a literal with the scheme
before the bytes. They are read with whatever knows the points of the curve.
-/

namespace Covenant

inductive KeyFault
  | coordinateKind (name : String)
  | coordinateText (name : String) (fault : Text.Base64.Fault)
  | coordinateSizes (x y : Nat)
  | offCurve
  | notRecord (kind : String)
  | unsupported (kty crv alg use : Datum)
  /-- a kind of key that no message can quote -/
  | unquotable
  | missingCoordinate
  | notHex (position : Nat)
  | compressedForm (first : UInt8)
  | size (count : Nat)
  | noScheme (text : String)
  | scheme (name : String)
  | foreign (kind : String)

def KeyFault.message : KeyFault → String
  | .coordinateKind name => "Coordinate '" ++ name ++ "' must be a base64url string"
  | .coordinateText name fault =>
    "Coordinate '" ++ name ++ "' is not valid base64url: " ++ fault.message
  | .coordinateSizes x y =>
    "Coordinates must be 32 bytes, got " ++ Decimal.natural x ++ " and " ++ Decimal.natural y
  | .offCurve => "Point is not on the secp256k1 curve"
  | .notRecord kind => "Public key must be an object, got " ++ kind
  | .unsupported kty crv alg use =>
    "Unsupported key: kty=" ++ kty.quoted ++ " crv=" ++ crv.quoted ++ " alg=" ++ alg.quoted ++
      " use=" ++ use.quoted ++ " (expected EC/secp256k1/ES256K/sig)"
  | .unquotable => ""
  | .missingCoordinate => "Public key is missing 'x' or 'y'"
  | .notHex position =>
    "Key is not valid hex: non-hexadecimal number found in fromhex() arg at position " ++
      Decimal.natural position
  | .compressedForm first =>
    "Invalid compressed key prefix 0x" ++ String.ofList (Text.hexByte first)
  | .size count => "Key must be 64 or 33 bytes, got " ++ Decimal.natural count
  | .noScheme text => "Key literal '" ++ text ++ "' is missing the '#' separator"
  | .scheme name => "Unsupported key literal scheme '" ++ name ++ "'"
  | .foreign kind => "Cannot interpret " ++ kind ++ " as a public key"

def KeyFault.ofKind (kty crv alg use : Datum) : KeyFault :=
  if [kty, crv, alg, use].all (·.isQuotable Datum.nestingLimit) then .unsupported kty crv alg use
  else .unquotable

namespace Key

/-- The natural that bytes write, high byte first. -/
def ofBytes (b : Bytes) : Nat := b.foldl (fun n x => n * 256 + x.toNat) 0

section
variable (points : Points)

/-- The key of two coordinates of 32 bytes. -/
def readPair (x y : Bytes) : Except KeyFault Key :=
  if x.length ≠ 32 ∨ y.length ≠ 32 then .error (.coordinateSizes x.length y.length)
  else match accepted? points.has (ofBytes x) (ofBytes y) with
    | some key => .ok key
    | none => .error .offCurve

def readCoordinate (name : String) : Datum → Except KeyFault Bytes
  | .text s =>
    match Text.Base64.readLenient s.toList with
    | .ok b => .ok b
    | .error fault => .error (.coordinateText name fault)
  | _ => .error (.coordinateKind name)

def isText (d : Datum) (s : String) : Bool :=
  match d with
  | .text t => t == s
  | _ => false

/-- The key that a record describes. The members that name the kind of key may be left out, all but
that of the curve. -/
def readRecord (fields : Fields) : Except KeyFault Key :=
  let kty := (fields.lookup "kty").getD (.text "EC")
  let crv := (fields.lookup "crv").getD .null
  let alg := (fields.lookup "alg").getD (.text "ES256K")
  let use := (fields.lookup "use").getD (.text "sig")
  if !(isText kty "EC" && isText crv "secp256k1" && isText alg "ES256K" && isText use "sig") then
    .error (.ofKind kty crv alg use)
  else match fields.lookup "x", fields.lookup "y" with
    | some x, some y => do
      let x ← readCoordinate "x" x
      let y ← readCoordinate "y" y
      readPair points x y
    | _, _ => .error .missingCoordinate

def readDatum : Datum → Except KeyFault Key
  | .record fields => readRecord points fields
  | d => .error (.notRecord d.kindName)

def dropHexSign : List Char → List Char
  | '0' :: 'x' :: rest => rest
  | '0' :: 'X' :: rest => rest
  | s => s

def readBytes (b : Bytes) : Except KeyFault Key :=
  if b.length = 64 then readPair points (b.take 32) (b.drop 32)
  else if b.length = 33 then
    let first := b.headD 0
    if first = 2 ∨ first = 3 then
      match points.withParity? (first = 3) (ofBytes b.tail) with
      | some key => .ok key
      | none => .error .offCurve
    else .error (.compressedForm first)
  else .error (.size b.length)

/-- The key that hexadecimal digits write, with blanks around them. -/
def readHex (s : String) : Except KeyFault Key :=
  match Text.readHex (dropHexSign (Text.trim s.toList)) with
  | .ok b => readBytes points b
  | .error position => .error (.notHex position)

def readLiteral (s : String) : Except KeyFault Key :=
  let chars := s.toList
  let scheme := chars.takeWhile (· != '#')
  if scheme.length = chars.length then .error (.noScheme s)
  else if scheme ≠ "eth".toList then .error (.scheme (String.ofList scheme))
  else readHex points (String.ofList (chars.drop (scheme.length + 1)))

/-- The key given in any of its forms; null is the absence of one. -/
def readAny : Datum → Except KeyFault (Option Key)
  | .null => .ok none
  | .key k => .ok (some k)
  | .record fields => (readRecord points fields).map some
  | .text s => (if s.toList.contains '#' then readLiteral points s else readHex points s).map some
  | d => .error (.foreign d.kindName)

end

/-! ## Keys as they are read here -/

def ofCoordinates (x y : Bytes) : Except KeyFault Key := readPair .modular x y

def ofDatum (d : Datum) : Except KeyFault Key := readDatum .modular d

def ofHex (s : String) : Except KeyFault Key := readHex .modular s

def ofLiteral (s : String) : Except KeyFault Key := readLiteral .modular s

def ofAny (d : Datum) : Except KeyFault (Option Key) := readAny .modular d

/-! ## Writing -/

def toRecord (k : Key) : Fields :=
  [("kty", .text "EC"), ("crv", .text "secp256k1"), ("alg", .text "ES256K"), ("use", .text "sig"),
   ("x", .text (Text.Base64.write Text.Base64.urlSafe (coordinateBytes k.x))),
   ("y", .text (Text.Base64.write Text.Base64.urlSafe (coordinateBytes k.y)))]

def toHex (k : Key) : String := Text.hex (coordinateBytes k.x ++ coordinateBytes k.y)

def toCompressedHex (k : Key) : String :=
  Text.hex (UInt8.ofNat (2 + k.y.val % 2) :: coordinateBytes k.x)

def toLiteral (k : Key) : String := "eth#" ++ k.toHex

end Key

end Covenant
