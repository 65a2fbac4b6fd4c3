import Covenant.Text.Hex
import Covenant.Number.Decimal
/-!
Bytes in base 64. Writing pads to whole groups of four characters. Reading is strict or lenient: a
lenient reader passes over characters outside the alphabet and stops at the first complete padding.
-/

namespace Covenant.Text.Base64

/-- The two characters that the alphabet has besides letters and digits. -/
structure Alphabet where
  sixtyTwo : Char
  sixtyThree : Char

def standard : Alphabet := ⟨'+', '/'⟩

def urlSafe : Alphabet := ⟨'-', '_'⟩

def Alphabet.char (a : Alphabet) (n : Nat) : Char :=
  if n < 26 then Char.ofNat ('A'.toNat + n)
  else if n < 52 then Char.ofNat ('a'.toNat + (n - 26))
  else if n < 62 then Char.ofNat ('0'.toNat + (n - 52))
  else if n = 62 then a.sixtyTwo
  else a.sixtyThree

/-- The six bits of a character of the standard alphabet. -/
def value? (c : Char) : Option Nat :=
  if 'A' ≤ c ∧ c ≤ 'Z' then some (c.toNat - 'A'.toNat)
  else if 'a' ≤ c ∧ c ≤ 'z' then some (c.toNat - 'a'.toNat + 26)
  else if '0' ≤ c ∧ c ≤ '9' then some (c.toNat - '0'.toNat + 52)
  else if c = '+' then some 62
  else if c = '/' then some 63
  else none

def writeChars (a : Alphabet) : Bytes → List Char
  | [] => []
  | [x] => [a.char (x.toNat / 4), a.char (x.toNat % 4 * 16), '=', '=']
  | [x, y] =>
    [a.char (x.toNat / 4), a.char (x.toNat % 4 * 16 + y.toNat / 16), a.char (y.toNat % 16 * 4), '=']
  | x :: y :: z :: rest =>
    a.char (x.toNat / 4) :: a.char (x.toNat % 4 * 16 + y.toNat / 16) ::
      a.char (y.toNat % 16 * 4 + z.toNat / 64) :: a.char (z.toNat % 64) :: writeChars a rest

def write (a : Alphabet) (bytes : Bytes) : String := String.ofList (writeChars a bytes)

inductive Fault
  | notAscii (first last : Nat) (char : Char)
  | foreign
  | leadingPadding
  | brokenPadding
  | afterPadding
  | missingPadding
  | loneCharacter (count : Nat)
deriving DecidableEq, Repr

/-- The escape of a character beyond the ASCII range. -/
def escaped (c : Char) : String :=
  let n := c.toNat
  String.ofList <|
    if n < 0x100 then '\\' :: 'x' :: hexNatural 2 n
    else if n < 0x10000 then '\\' :: 'u' :: hexNatural 4 n
    else '\\' :: 'U' :: hexNatural 8 n

def Fault.message : Fault → String
  | .notAscii first last c =>
    if first = last then
      "'ascii' codec can't encode character '" ++ escaped c ++ "' in position " ++
        Decimal.natural first ++ ": ordinal not in range(128)"
    else
      "'ascii' codec can't encode characters in position " ++ Decimal.natural first ++ "-" ++
        Decimal.natural last ++ ": ordinal not in range(128)"
  | .foreign => "Only base64 data is allowed"
  | .leadingPadding => "Leading padding not allowed"
  | .brokenPadding => "Discontinuous padding not allowed"
  | .afterPadding => "Excess data after padding"
  | .missingPadding => "Incorrect padding"
  | .loneCharacter n =>
    "Invalid base64-encoded string: number of data characters (" ++ Decimal.natural n ++
      ") cannot be 1 more than a multiple of 4"

/-- How far a reader is: characters of the current group, the bits they leave over, the padding
seen since the last of them, whether any padding was seen, and the bytes read, last first. -/
structure Progress where
  place : Nat := 0
  left : Nat := 0
  pads : Nat := 0
  padded : Bool := false
  read : Bytes := []

def Progress.push (p : Progress) (v : Nat) : Progress :=
  let extended (byte : Nat) : Bytes := UInt8.ofNat byte :: p.read
  match p.place with
  | 0 => { p with place := 1, left := v, pads := 0 }
  | 1 => { p with place := 2, left := v % 16, pads := 0, read := extended (p.left * 4 + v / 16) }
  | 2 => { p with place := 3, left := v % 4, pads := 0, read := extended (p.left * 16 + v / 4) }
  | _ => { p with place := 0, left := 0, pads := 0, read := extended (p.left * 64 + v) }

def readFrom (strict : Bool) (p : Progress) : List Char → Except Fault Bytes
  | [] =>
    if p.place = 0 then .ok p.read.reverse
    else if p.place = 1 then .error (.loneCharacter (p.read.length / 3 * 4 + 1))
    else .error .missingPadding
  | c :: rest =>
    if c = '=' then
      if 2 ≤ p.place ∧ 4 ≤ p.place + p.pads + 1 then
        if strict && !rest.isEmpty then .error .afterPadding else .ok p.read.reverse
      else
        let pads := if 2 ≤ p.place then p.pads + 1 else p.pads
        readFrom strict { p with padded := true, pads } rest
    else match value? c with
      | none => if strict then .error .foreign else readFrom strict p rest
      | some v =>
        if strict && p.padded then .error .brokenPadding else readFrom strict (p.push v) rest

/-- The first run of characters beyond the ASCII range. -/
def notAscii? (s : List Char) : Option Fault :=
  let before := s.takeWhile fun c => c.toNat < 0x80
  match s.drop before.length with
  | [] => none
  | c :: rest =>
    let run := rest.takeWhile fun c => 0x80 ≤ c.toNat
    some (.notAscii before.length (before.length + run.length) c)

/-- Reads the standard alphabet, refusing all that writing would not produce but spare bits and
padding after a whole group. -/
def readStrict (s : List Char) : Except Fault Bytes :=
  match notAscii? s with
  | some fault => .error fault
  | none => if s.head? = some '=' then .error .leadingPadding else readFrom true {} s

/-- Reads both alphabets, after filling the text up to whole groups. -/
def readLenient (s : List Char) : Except Fault Bytes :=
  match notAscii? s with
  | some fault => .error fault
  | none =>
    let filled := s ++ List.replicate ((4 - s.length % 4) % 4) '='
    readFrom false {} (filled.map fun c => if c = '-' then '+' else if c = '_' then '/' else c)

end Covenant.Text.Base64
