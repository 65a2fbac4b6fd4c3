import Covenant.Text.Blank
import Covenant.Text.Utf8
/-!
Bytes as pairs of hexadecimal digits.
-/

namespace Covenant.Text

def hexDigit (n : Nat) : Char :=
  if n < 10 then Char.ofNat ('0'.toNat + n) else Char.ofNat ('a'.toNat + (n - 10))

def hexValue? (c : Char) : Option Nat :=
  if '0' ≤ c ∧ c ≤ '9' then some (c.toNat - '0'.toNat)
  else if 'a' ≤ c ∧ c ≤ 'f' then some (c.toNat - 'a'.toNat + 10)
  else if 'A' ≤ c ∧ c ≤ 'F' then some (c.toNat - 'A'.toNat + 10)
  else none

def hexByte (b : UInt8) : List Char := [hexDigit (b.toNat / 16), hexDigit (b.toNat % 16)]

def hex (bytes : Bytes) : String := String.ofList (bytes.flatMap hexByte)

/-- The digits of a natural in base sixteen, at least `width` of them. -/
def hexNatural (width n : Nat) : List Char :=
  let ds := Nat.toDigits 16 n
  List.replicate (width - ds.length) '0' ++ ds

def isByteGap (c : Char) : Bool := c == ' ' || (0x09 ≤ c.toNat && c.toNat ≤ 0x0d)

/-- The bytes of a text that starts at position `at`, or the position of the first character that
is out of place; at the end of the text that is its length. -/
def readHexFrom (position : Nat) : List Char → Except Nat Bytes
  | [] => .ok []
  | [c] =>
    if isByteGap c then .ok []
    else match hexValue? c with
      | some _ => .error (position + 1)
      | none => .error position
  | c :: d :: rest =>
    if isByteGap c then readHexFrom (position + 1) (d :: rest)
    else match hexValue? c, hexValue? d with
      | some high, some low =>
        (readHexFrom (position + 2) rest).map (UInt8.ofNat (16 * high + low) :: ·)
      | some _, none => .error (position + 1)
      | none, _ => .error position

/-- The bytes that a text writes, or the position of the first character out of place. The first
character beyond the ASCII range, if any, is out of place before all others. -/
def readHex (s : List Char) : Except Nat Bytes :=
  match s.findIdx? fun c => 0x80 ≤ c.toNat with
  | some i => .error i
  | none => readHexFrom 0 s

end Covenant.Text
