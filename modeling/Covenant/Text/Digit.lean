import Covenant.Text.Blank
/-!
Decimal digits of all scripts, and the integers written with them.
-/

namespace Covenant.Text

/-- The code points of the zeros; nine more digits follow each, in order. Version 14 of the
standard. -/
def zeroDigits : List Nat :=
  [0x30, 0x660, 0x6f0, 0x7c0, 0x966, 0x9e6, 0xa66, 0xae6, 0xb66, 0xbe6, 0xc66, 0xce6, 0xd66,
    0xde6, 0xe50, 0xed0, 0xf20, 0x1040, 0x1090, 0x17e0, 0x1810, 0x1946, 0x19d0, 0x1a80, 0x1a90,
    0x1b50, 0x1bb0, 0x1c40, 0x1c50, 0xa620, 0xa8d0, 0xa900, 0xa9d0, 0xa9f0, 0xaa50, 0xabf0,
    0xff10, 0x104a0, 0x10d30, 0x11066, 0x110f0, 0x11136, 0x111d0, 0x112f0, 0x11450, 0x114d0,
    0x11650, 0x116c0, 0x11730, 0x118e0, 0x11950, 0x11c50, 0x11d50, 0x11da0, 0x16a60, 0x16ac0,
    0x16b50, 0x1d7ce, 0x1d7d8, 0x1d7e2, 0x1d7ec, 0x1d7f6, 0x1e140, 0x1e2f0, 0x1e950, 0x1fbf0]

/-- The value of a decimal digit of any script. -/
def digit? (c : Char) : Option Nat :=
  if c.toNat < 0x80 then
    if '0' ≤ c ∧ c ≤ '9' then some (c.toNat - 48) else none
  else (zeroDigits.find? fun z => z ≤ c.toNat && c.toNat < z + 10).map (c.toNat - ·)

/-- Blanks that may stand around an integer: those of the ASCII range are tab to carriage return
and the space only. -/
def isPadding (c : Char) : Bool :=
  if c.toNat < 0x80 then isBlank c && !(0x1c ≤ c.toNat && c.toNat ≤ 0x1f) else isBlank c

def unpadded (s : List Char) : List Char :=
  ((s.dropWhile isPadding).reverse.dropWhile isPadding).reverse

/-- The most digits that an integer may have when it is read. -/
def digitLimit : Nat := 4300

/-- The values of digits, each but the first with at most one low line before it. -/
def digitsWithLowLines : List Char → Option (List Nat)
  | [] => some []
  | '_' :: c :: rest =>
    match digit? c, digitsWithLowLines rest with
    | some d, some ds => some (d :: ds)
    | _, _ => none
  | c :: rest =>
    match digit? c, digitsWithLowLines rest with
    | some d, some ds => some (d :: ds)
    | _, _ => none

/-- A run of digits as a natural, when it is one and not too long. -/
def naturalOf? : List Char → Option Nat
  | [] => none
  | c :: rest =>
    match digit? c, digitsWithLowLines rest with
    | some d, some ds =>
      if ds.length < digitLimit then some ((d :: ds).foldl (fun n d => 10 * n + d) 0) else none
    | _, _ => none

/-- The integer that a text is: padding, a sign, digits of any script with single low lines
between them, padding. -/
def integer? (s : List Char) : Option Int :=
  let s := unpadded s
  match s with
  | '-' :: rest => (naturalOf? rest).map fun n => -(n : Int)
  | '+' :: rest => (naturalOf? rest).map fun n => (n : Int)
  | _ => (naturalOf? s).map fun n => (n : Int)

end Covenant.Text
