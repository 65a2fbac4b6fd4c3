import Covenant.Datum.Basic
import Covenant.Text.Digit
/-!
The limit of steps of a run, and the data that give one: a positive integer, which may also be a
double or decimal text.
-/

namespace Covenant.Limit

def standard : Nat := 1000000

/-- The text after the zeros that it begins with. Low lines among them and after them are zeros
too. -/
def afterZeros (s : List Char) : List Char :=
  match s with
  | '0' :: _ => s.dropWhile fun c => c == '0' || c == '_'
  | _ => s

/-- Whether what follows the digits is nothing, or a point with zeros only, at least one, after
it. -/
def isZeroFraction : List Char → Bool
  | [] => true
  | _ :: fraction => !fraction.isEmpty && fraction.all (· == '0')

/-- The natural that a text is: padding, a plus sign, zeros, the digits of the ASCII range with
single low lines between them, a point with zeros only after it, padding. -/
def ofText? (s : List Char) : Option Nat :=
  let s := Text.unpadded s
  let s := afterZeros (if s.head? = some '+' then s.tail else s)
  let whole := s.takeWhile (· != '.')
  if isZeroFraction (s.drop whole.length) && whole.all fun c => c == '_' || c.isDigit then
    Text.naturalOf? whole
  else none

/-- Doubles from here on give no limit, although they are integers. -/
def doubleBound : Int := 0x8000000000000000

def integer? : Datum → Option Int
  | .integer i => some i
  | .boolean b => some (if b then 1 else 0)
  | .float x => x.toInt?.filter (· < doubleBound)
  | .text s => (ofText? s.toList).map fun n => (n : Int)
  | _ => none

/-- The limit of steps that a datum gives, if it is positive. -/
def ofDatum? (d : Datum) : Option Nat :=
  match integer? d with
  | some (.ofNat (n + 1)) => some (n + 1)
  | _ => none

end Covenant.Limit
