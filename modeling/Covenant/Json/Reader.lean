import Covenant.Datum.Basic
import Covenant.Number.Decimal
import Covenant.Text.Digit
import Covenant.Text.Hex
/-!
Reading JSON text. A fault says what was expected and where. Texts are sequences of characters, so half
of a surrogate pair, which an escape may name alone, has no place in them.
-/

namespace Covenant.Json

inductive Expected
  | value
  | end_
  | comma
  | colon
  | name
  | quoteAfter
  | visible
  | escape
  | unicodeEscape
  | noMark
deriving DecidableEq, Repr

/-- What is wrong with a text at a position; or an integer with more digits than are read; or arrays and
objects nested deeper than there is room for. -/
inductive Fault
  | at (expected : Expected) (position : Nat)
  | tooLong
  | tooDeep
deriving DecidableEq, Repr

def Expected.message : Expected → String
  | .value => "Expecting value"
  | .end_ => "Extra data"
  | .comma => "Expecting ',' delimiter"
  | .colon => "Expecting ':' delimiter"
  | .name => "Expecting property name enclosed in double quotes"
  | .quoteAfter => "Unterminated string starting at"
  | .visible => "Invalid control character at"
  | .escape => "Invalid \\escape"
  | .unicodeEscape => "Invalid \\uXXXX escape"
  | .noMark => "Unexpected UTF-8 BOM (decode using utf-8-sig)"

/-- Line and column of a position, both from one. -/
def lineAndColumn (s : List Char) (position : Nat) : Nat × Nat :=
  let before := s.take position
  (before.count '\n' + 1, (before.reverse.takeWhile (· != '\n')).length + 1)

def message (s : List Char) (expected : Expected) (position : Nat) : String :=
  let (line, column) := lineAndColumn s position
  expected.message ++ ": line " ++ Decimal.natural line ++ " column " ++ Decimal.natural column ++
    " (char " ++ Decimal.natural position ++ ")"

structure Cursor where
  position : Nat
  rest : List Char

def Cursor.drop (c : Cursor) (n : Nat) : Cursor := ⟨c.position + n, c.rest.drop n⟩

def Cursor.fail {α : Type} (c : Cursor) (expected : Expected) : Except Fault α :=
  .error (.at expected c.position)

def isSpace (c : Char) : Bool := c == ' ' || c == '\t' || c == '\n' || c == '\r'

def Cursor.skipSpace (c : Cursor) : Cursor := c.drop (c.rest.takeWhile isSpace).length

def hexFour (s : List Char) : Option Nat :=
  match s with
  | a :: b :: c :: d :: _ => do
    let a ← Text.hexValue? a
    let b ← Text.hexValue? b
    let c ← Text.hexValue? c
    let d ← Text.hexValue? d
    return ((a * 16 + b) * 16 + c) * 16 + d
  | _ => none

def simpleEscape : Char → Option Char
  | '"' => some '"'
  | '\\' => some '\\'
  | '/' => some '/'
  | 'b' => some (Char.ofNat 8)
  | 'f' => some (Char.ofNat 12)
  | 'n' => some '\n'
  | 'r' => some '\r'
  | 't' => some '\t'
  | _ => none

def isHighHalf (n : Nat) : Bool := 0xd800 ≤ n && n < 0xdc00

def isLowHalf (n : Nat) : Bool := 0xdc00 ≤ n && n < 0xe000

/-- The character of a code unit. Half of a pair without the other half is no character: it is replaced,
so nothing is said here of texts that hold one. -/
def unitChar (n : Nat) : Char :=
  if isHighHalf n || isLowHalf n then Text.replacement else Char.ofNat n

/-- The character that an escape by number stands for, and how many characters the escape takes
from the letter on; `position` is that of the letter. Something must follow the four digits. -/
def numberEscape (position : Nat) (afterLetter : List Char) : Except Fault (Char × Nat) :=
  if (afterLetter.drop 4).isEmpty then .error (.at .unicodeEscape position)
  else match hexFour afterLetter with
    | none => .error (.at .unicodeEscape position)
    | some unit =>
      match isHighHalf unit && !(afterLetter.drop 10).isEmpty, afterLetter.drop 4 with
      | true, '\\' :: 'u' :: digits =>
        match hexFour digits with
        | none => .error (.at .unicodeEscape (position + 6))
        | some low =>
          if isLowHalf low then
            .ok (Char.ofNat (0x10000 + (unit - 0xd800) * 0x400 + (low - 0xdc00)), 11)
          else .ok (unitChar unit, 5)
      | _, _ => .ok (unitChar unit, 5)

/-- The characters of a string up to its closing quote, `start` being the position of the opening
one; `fuel` bounds the number of characters. -/
def stringFrom (start : Nat) : Nat → Cursor → List Char → Except Fault (String × Cursor)
  | 0, _, _ => .error (.at .quoteAfter start)
  | fuel + 1, c, read =>
    match c.rest with
    | [] => .error (.at .quoteAfter start)
    | '"' :: _ => .ok (String.ofList read.reverse, c.drop 1)
    | ['\\'] => .error (.at .quoteAfter start)
    | '\\' :: 'u' :: rest => do
      let (char, size) ← numberEscape (c.position + 1) rest
      stringFrom start fuel (c.drop (1 + size)) (char :: read)
    | '\\' :: letter :: _ =>
      match simpleEscape letter with
      | some char => stringFrom start fuel (c.drop 2) (char :: read)
      | none => c.fail .escape
    | char :: _ =>
      if char.toNat < 0x20 then c.fail .visible
      else stringFrom start fuel (c.drop 1) (char :: read)

def takeDigits (s : List Char) : List Char := s.takeWhile fun c => '0' ≤ c ∧ c ≤ '9'

/-- The exponent part at the start of a text: its value and its length. -/
def exponentPart (s : List Char) : Int × Nat :=
  match s with
  | e :: rest =>
    if e = 'e' ∨ e = 'E' then
      let (negative, sign, rest) := match rest with
        | '-' :: r => (true, 1, r)
        | '+' :: r => (false, 1, r)
        | r => (false, 0, r)
      let ds := takeDigits rest
      if ds.isEmpty then (0, 0)
      else
        let n : Int := Decimal.value ds
        (if negative then -n else n, 1 + sign + ds.length)
    else (0, 0)
  | [] => (0, 0)

/-- A number: an integer unless it has a fraction or an exponent. -/
def number (c : Cursor) : Except Fault (Datum × Cursor) :=
  let (negative, sign) := match c.rest with
    | '-' :: _ => (true, 1)
    | _ => (false, 0)
  let all := takeDigits (c.rest.drop sign)
  let whole := if all.head? = some '0' then ['0'] else all
  if whole.isEmpty then c.fail .value
  else
    let rest := c.rest.drop (sign + whole.length)
    let fraction := match rest with
      | '.' :: r => takeDigits r
      | _ => []
    let fractionSize := if fraction.isEmpty then 0 else 1 + fraction.length
    let (exponent, exponentSize) := exponentPart (rest.drop fractionSize)
    let next := c.drop (sign + whole.length + fractionSize + exponentSize)
    if fractionSize + exponentSize = 0 then
      if Text.digitLimit < whole.length then .error .tooLong
      else
        let n : Int := Decimal.value whole
        .ok (.integer (if negative then -n else n), next)
    else
      .ok (.float (Decimal.toDouble negative (Decimal.value (whole ++ fraction))
        (exponent - fraction.length)), next)

def words : List (List Char × Datum) :=
  [("null".toList, .null), ("true".toList, .boolean true), ("false".toList, .boolean false),
   ("NaN".toList, .float (.nan .literal)), ("Infinity".toList, .float (Double.infinity false)),
   ("-Infinity".toList, .float (Double.infinity true))]

def scalar (c : Cursor) : Except Fault (Datum × Cursor) :=
  match c.rest with
  | '"' :: _ => do
    let (s, next) ← stringFrom c.position c.rest.length (c.drop 1) []
    .ok (.text s, next)
  | _ =>
    match words.find? fun w => w.1.isPrefixOf c.rest with
    | some w => .ok (w.2, c.drop w.1.length)
    | none => number c

mutual
/-- A value. `fuel` bounds the depth of nesting and the number of parts together, and `room` is how many
arrays and objects may still be open inside one another. -/
def value : Nat → Nat → Cursor → Except Fault (Datum × Cursor)
  | 0, _, c => c.fail .value
  | fuel + 1, room, c =>
    match c.rest with
    | '[' :: _ =>
      match room with
      | 0 => .error .tooDeep
      | room + 1 => do
        let c := (c.drop 1).skipSpace
        match c.rest with
        | ']' :: _ => .ok (.list [], c.drop 1)
        | _ =>
          let (items, c) ← items fuel room c
          .ok (.list items, c)
    | '\x7b' :: _ =>
      match room with
      | 0 => .error .tooDeep
      | room + 1 => do
        let c := (c.drop 1).skipSpace
        match c.rest with
        | '\x7d' :: _ => .ok (.record [], c.drop 1)
        | _ =>
          let (members, c) ← members fuel room c
          .ok (.record (ofMembers members), c)
    | _ => scalar c

def items : Nat → Nat → Cursor → Except Fault (List Datum × Cursor)
  | 0, _, c => c.fail .value
  | fuel + 1, room, c => do
    let (item, c) ← value fuel room c
    let c := c.skipSpace
    match c.rest with
    | ']' :: _ => .ok ([item], c.drop 1)
    | ',' :: _ =>
      let (rest, c) ← items fuel room (c.drop 1).skipSpace
      .ok (item :: rest, c)
    | _ => c.fail .comma

def members : Nat → Nat → Cursor → Except Fault (List (String × Datum) × Cursor)
  | 0, _, c => c.fail .name
  | fuel + 1, room, c =>
    match c.rest with
    | '"' :: _ => do
      let (name, c) ← stringFrom c.position c.rest.length (c.drop 1) []
      let c := c.skipSpace
      match c.rest with
      | ':' :: _ =>
        let (item, c) ← value fuel room (c.drop 1).skipSpace
        let c := c.skipSpace
        match c.rest with
        | '\x7d' :: _ => .ok ([(name, item)], c.drop 1)
        | ',' :: _ =>
          let (rest, c) ← members fuel room (c.drop 1).skipSpace
          .ok ((name, item) :: rest, c)
        | _ => c.fail .comma
      | _ => c.fail .colon
    | _ => c.fail .name
end

/-- The value that a whole text writes, with room for so many arrays and objects inside one another. -/
def readWithin (room : Nat) (s : List Char) : Except Fault Datum :=
  if s.head? = some (Char.ofNat 0xfeff) then .error (.at .noMark 0)
  else do
    let (d, c) ← value (2 * s.length + 1) room (Cursor.skipSpace ⟨0, s⟩)
    let c := c.skipSpace
    if c.rest.isEmpty then .ok d else c.fail .end_

/-- The value that a whole text writes, however deep it is nested. -/
def read (s : List Char) : Except Fault Datum := readWithin s.length s

end Covenant.Json
