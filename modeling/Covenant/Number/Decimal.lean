import Covenant.Number.Double
/-!
Decimal text of numbers. Integers are written in base ten. A double is written with the fewest
digits that read back to it, the nearest of those, ties to even; a `Style` says how the digits
are laid out.
-/

namespace Covenant

namespace Decimal

/-- The decimal digits of a natural, most significant first. -/
def digits (n : Nat) : List Char := Nat.toDigits 10 n

def natural (n : Nat) : String := String.ofList (digits n)

def integer (i : Int) : String := if i < 0 then "-" ++ natural i.natAbs else natural i.natAbs

def value (ds : List Char) : Nat := ds.foldl (fun n c => 10 * n + (c.toNat - '0'.toNat)) 0

/-- The double nearest to `m * 10 ^ e`. Beyond the ends of the format no power is computed: from
`10 ^ 310` on everything is infinite, below `10 ^ (-330)` everything is zero. -/
def toDouble (negative : Bool) (m : Nat) (e : Int) : Double :=
  if m = 0 then Double.zero negative
  else if 310 ≤ e then Double.infinity negative
  else if e + ((m.log2 / 3 + 1 : Nat) : Int) < -330 then Double.zero negative
  else Double.ofRatio negative (m * Nat.pow 10 e.toNat) (Nat.pow 10 (-e).toNat)

/-- `num / den` as a quotient in units of `10 ^ k`. -/
def inUnits (num den : Nat) (k : Int) : Nat × Nat :=
  (num * Nat.pow 10 (-k).toNat, den * Nat.pow 10 k.toNat)

def below (num den : Nat) (k : Int) : Bool :=
  let s := inUnits num den k
  s.1 < s.2

/-- The number of digits before the point of `num / den`: the least `k` with the quotient below
`10 ^ k`, found from the binary logarithm and corrected by exact comparison. -/
def pointPosition (num den : Nat) : Int :=
  let guess := ((num.log2 : Int) - (den.log2 : Int)) * 30103 / 100000
  if below num den (guess - 1) then guess - 1
  else if below num den guess then guess
  else if below num den (guess + 1) then guess + 1
  else guess + 2

structure Scientific where
  coefficient : Nat
  exponent : Int
deriving DecidableEq, Repr

def Scientific.readsAs (d : Scientific) (rank : Nat) : Bool :=
  match toDouble false d.coefficient d.exponent with
  | .number _ r => r.val == rank
  | .nan _ => false

/-- The better of the two neighbours of `num / den` on the grid of `10 ^ k` that read back. -/
def onGrid (rank num den : Nat) (k : Int) : Option Scientific :=
  let s := inUnits num den k
  let q := s.1 / s.2
  let r := s.1 % s.2
  let lower : Scientific := ⟨q, k⟩
  let upper : Scientific := ⟨q + 1, k⟩
  match lower.readsAs rank, upper.readsAs rank with
  | true, true =>
    if 2 * r > s.2 ∨ (2 * r = s.2 ∧ q % 2 = 1) then some upper else some lower
  | true, false => some lower
  | false, true => some upper
  | false, false => none

/-- The coarsest grid with a neighbour that reads back, trying `fuel` grids from `10 ^ k` down;
the exact value when none has one. -/
def shortestFrom (rank : Nat) (m : Nat) (e : Int) : Nat → Int → Scientific
  | 0, _ => ⟨(m <<< e.toNat) * Nat.pow 5 (-e).toNat, min e 0⟩
  | fuel + 1, k =>
    match onGrid rank (m <<< e.toNat) (1 <<< (-e).toNat) k with
    | some d => d
    | none => shortestFrom rank m e fuel (k - 1)

/-- The shortest decimal that reads back to the positive double of a rank. -/
def shortest (rank : Nat) : Scientific :=
  let (m, e) := binary64.dyadic rank
  shortestFrom rank m e 17 (pointPosition (m <<< e.toNat) (1 <<< (-e).toNat) - 1)

/-- The digits without the zeros at their end. -/
def significant (n : Nat) : List Char := ((digits n).reverse.dropWhile (· == '0')).reverse

/-- How doubles are written: positionally when the exponent of the leading digit lies in
`[plainFrom, plainBelow)`, otherwise with a signed exponent of at least two digits. -/
structure Style where
  plainFrom : Int
  plainBelow : Int
  infinity : String
  notANumber : String

def zeros (n : Nat) : List Char := List.replicate n '0'

/-- The layout of `0.ds * 10 ^ point`, `ds` without zeros at its ends. -/
def Style.layout (style : Style) (ds : List Char) (point : Int) : List Char :=
  if style.plainFrom ≤ point - 1 ∧ point - 1 < style.plainBelow then
    if point ≤ 0 then '0' :: '.' :: zeros (-point).toNat ++ ds
    else if (ds.length : Int) ≤ point then ds ++ zeros (point.toNat - ds.length) ++ ['.', '0']
    else ds.take point.toNat ++ '.' :: ds.drop point.toNat
  else
    let exponent := point - 1
    let sign := if exponent < 0 then '-' else '+'
    let size := digits exponent.natAbs
    let padded := if size.length < 2 then '0' :: size else size
    ds.take 1 ++ (if ds.length ≤ 1 then [] else '.' :: ds.drop 1) ++ 'e' :: sign :: padded

def Style.positive (style : Style) (rank : Nat) : List Char :=
  let d := shortest rank
  style.layout (significant d.coefficient) ((digits d.coefficient).length + d.exponent)

def Style.write (style : Style) : Double → String
  | .nan _ => style.notANumber
  | .number negative r =>
    let magnitude :=
      if r.val = binary64.top then style.infinity
      else if r.val = 0 then "0.0"
      else String.ofList (style.positive r.val)
    if negative then "-" ++ magnitude else magnitude

end Decimal

end Covenant
