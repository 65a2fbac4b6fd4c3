/-!
Double precision numbers, computed exactly. A number is a sign and a rank, its place in the
ascending list of the non-negative numbers of the format, infinity being the last one. Every
operation takes the exact quotient of two naturals and rounds it once, to nearest, ties to even.
-/

namespace Covenant

/-- A binary format: the bits after the leading one, the exponent of the last bit of the smallest
numbers, and the number of exponent fields that finite numbers use. -/
structure BinaryFormat where
  fractionBits : Nat
  lowestExponent : Int
  fields : Nat

def binary64 : BinaryFormat := ⟨52, -1074, 2047⟩

def binary32 : BinaryFormat := ⟨23, -149, 255⟩

def BinaryFormat.top (f : BinaryFormat) : Nat := f.fields <<< f.fractionBits

/-- The finite number of a rank, as `m * 2 ^ e`. -/
def BinaryFormat.dyadic (f : BinaryFormat) (rank : Nat) : Nat × Int :=
  let field := rank >>> f.fractionBits
  let fraction := rank % (1 <<< f.fractionBits)
  if field = 0 then (fraction, f.lowestExponent)
  else ((1 <<< f.fractionBits) + fraction, f.lowestExponent + ((field - 1 : Nat) : Int))

/-- The quotient rounded to the nearest natural, a tie going to the even one. -/
def roundQuotient (num den : Nat) : Nat :=
  let q := num / den
  let r := num % den
  if 2 * r > den ∨ (2 * r = den ∧ q % 2 = 1) then q + 1 else q

/-- `num / den` scaled by `2 ^ (-e)`, as a quotient of naturals. -/
def scaled (num den : Nat) (e : Int) : Nat × Nat :=
  (num <<< (-e).toNat, den <<< e.toNat)

/-- The exponent of the last bit kept when `num / den` is rounded in the format. -/
def BinaryFormat.lastBit (f : BinaryFormat) (num den : Nat) : Int :=
  let guess : Int := (num.log2 : Int) - (den.log2 : Int) - (f.fractionBits : Int)
  let s := scaled num den guess
  max f.lowestExponent (if s.1 / s.2 < 1 <<< f.fractionBits then guess - 1 else guess)

/-- The rank of the number nearest to `num / den`. -/
def BinaryFormat.rank (f : BinaryFormat) (num den : Nat) : Nat :=
  if num = 0 then 0
  else
    let e := f.lastBit num den
    let s := scaled num den e
    min f.top (((e - f.lowestExponent).toNat <<< f.fractionBits) + roundQuotient s.1 s.2)

/-- Where a value that is not a number came from. Two such values are told apart by their origin:
a literal, a place in the request, a place in decoded data, a computation, or an earlier call. -/
inductive Origin
  | literal
  | given (index : Nat)
  | place (path : String)
  | computed (index : Nat)
  | carried (call index : Nat)
deriving DecidableEq, Repr

inductive Double
  | nan (origin : Origin)
  | number (negative : Bool) (rank : Fin 0x7ff0000000000001)
deriving DecidableEq, Repr

namespace Double

theorem rank_lt (num den : Nat) : binary64.rank num den < 0x7ff0000000000001 := by
  unfold BinaryFormat.rank
  split
  · omega
  · exact Nat.lt_succ_of_le (Nat.min_le_left _ _)

/-- The number nearest to `num / den`, with a sign. -/
def ofRatio (negative : Bool) (num den : Nat) : Double :=
  .number negative ⟨binary64.rank num den, rank_lt num den⟩

/-- Zero has a sign. -/
def zero (negative : Bool) : Double := .number negative ⟨0, Nat.zero_lt_succ _⟩

def infinity (negative : Bool) : Double :=
  .number negative ⟨0x7ff0000000000000, Nat.lt_succ_self _⟩

def ofInt (i : Int) : Double := ofRatio (i < 0) i.natAbs 1

/-- The number nearest to `m * 2 ^ e`. -/
def ofDyadic (negative : Bool) (m : Nat) (e : Int) : Double :=
  ofRatio negative (m <<< e.toNat) (1 <<< (-e).toNat)

def isNan : Double → Bool
  | .nan _ => true
  | .number .. => false

def isInfinite : Double → Bool
  | .nan _ => false
  | .number _ r => r.val == binary64.top

/-- The exact magnitude of a finite number, `m * 2 ^ e`. -/
def magnitude : Double → Nat × Int
  | .nan _ => (0, 0)
  | .number _ r => binary64.dyadic r.val

def isNegative : Double → Bool
  | .nan _ => false
  | .number negative _ => negative

/-- The rank with the sign of the number: the order of the numbers is the order of these. -/
def signedRank (negative : Bool) (rank : Nat) : Int := if negative then -rank else rank

/-- The eight bytes of a number, as one word. Which bits a processor gives what is not a number, its
sign included, is not kept: all of those have one word here. -/
def toBits : Double → Nat
  | .nan _ => 0x7ff8000000000000
  | .number negative r => (if negative then 0x8000000000000000 else 0) + r.val

/-- The value of a word of eight bytes; `origin` marks what is not a number. -/
def ofBits (origin : Origin) (bits : Nat) : Double :=
  let negative := bits / 0x8000000000000000 % 2 == 1
  let rank := bits % 0x8000000000000000
  if h : rank < 0x7ff0000000000001 then .number negative ⟨rank, h⟩ else .nan origin

def singleRank (x : Double) : Nat :=
  if x.isInfinite then binary32.top
  else
    let (m, e) := x.magnitude
    binary32.rank (m <<< e.toNat) (1 <<< (-e).toNat)

/-- The nearest single precision number, as a double. -/
def roundSingle (origin : Origin) : Double → Double
  | .nan _ => .nan origin
  | x@(.number negative _) =>
    let rank := x.singleRank
    if rank = binary32.top then infinity negative
    else
      let (m, e) := binary32.dyadic rank
      ofDyadic negative m e

/-- The four bytes of the nearest single precision number, as one word; a finite number that
rounds to infinity has none. As in `toBits`, what is not a number has one word. -/
def singleBits : Double → Option Nat
  | .nan _ => some 0x7fc00000
  | x@(.number negative _) =>
    let rank := x.singleRank
    if rank = binary32.top ∧ x.isInfinite = false then none
    else some ((if negative then 0x80000000 else 0) + rank)

def neg (origin : Origin) : Double → Double
  | .nan _ => .nan origin
  | .number negative r => .number (!negative) r

/-- The exact signed sum of two finite numbers, as `m * 2 ^ e`. -/
def exactSum (x y : Double) : Int × Int :=
  let (m₁, e₁) := x.magnitude
  let (m₂, e₂) := y.magnitude
  let e := min e₁ e₂
  let a : Int := (m₁ <<< (e₁ - e).toNat : Nat)
  let b : Int := (m₂ <<< (e₂ - e).toNat : Nat)
  ((if x.isNegative then -a else a) + (if y.isNegative then -b else b), e)

/-- The sum; an exact zero is negative only when both summands are. -/
def add (origin : Origin) (x y : Double) : Double :=
  if x.isNan || y.isNan then .nan origin
  else if x.isInfinite then
    if y.isInfinite && x.isNegative != y.isNegative then .nan origin else x
  else if y.isInfinite then y
  else
    let (s, e) := exactSum x y
    if s = 0 then zero (x.isNegative && y.isNegative)
    else ofDyadic (s < 0) s.natAbs e

def sub (origin : Origin) (x y : Double) : Double := add origin x (neg origin y)

def mul (origin : Origin) (x y : Double) : Double :=
  let negative := x.isNegative != y.isNegative
  if x.isNan || y.isNan then .nan origin
  else if x.isInfinite || y.isInfinite then
    if x.magnitude.1 = 0 || y.magnitude.1 = 0 then .nan origin else infinity negative
  else
    let (m₁, e₁) := x.magnitude
    let (m₂, e₂) := y.magnitude
    ofDyadic negative (m₁ * m₂) (e₁ + e₂)

def div (origin : Origin) (x y : Double) : Double :=
  let negative := x.isNegative != y.isNegative
  if x.isNan || y.isNan then .nan origin
  else if x.isInfinite then
    if y.isInfinite then .nan origin else infinity negative
  else if y.isInfinite then zero negative
  else
    let (m₁, e₁) := x.magnitude
    let (m₂, e₂) := y.magnitude
    let e := e₁ - e₂
    ofRatio negative (m₁ <<< e.toNat) (m₂ <<< (-e).toNat)

/-- The remainder of truncated division by a number other than zero, with the sign of the
dividend; an infinite dividend has none. -/
def rem (origin : Origin) (x y : Double) : Option Double :=
  if x.isNan || y.isNan then some (.nan origin)
  else if x.isInfinite then none
  else if y.isInfinite then some x
  else
    let (m₁, e₁) := x.magnitude
    let (m₂, e₂) := y.magnitude
    let e := min e₁ e₂
    some (ofDyadic x.isNegative
      ((m₁ <<< (e₁ - e).toNat) % (m₂ <<< (e₂ - e).toNat)) e)

/-- Equality as numbers: both zeros are equal, what is not a number equals nothing. -/
def eq : Double → Double → Bool
  | .number n₁ r₁, .number n₂ r₂ => signedRank n₁ r₁.val == signedRank n₂ r₂.val
  | _, _ => false

def lt : Double → Double → Bool
  | .number n₁ r₁, .number n₂ r₂ => signedRank n₁ r₁.val < signedRank n₂ r₂.val
  | _, _ => false

def compareInt (x : Double) (i : Int) : Option Ordering :=
  match x with
  | .nan _ => none
  | .number negative _ =>
    if x.isInfinite then some (if negative then .lt else .gt)
    else
      let (m, e) := x.magnitude
      let a : Int := (m <<< e.toNat : Nat)
      some (compare (if negative then -a else a) (i * ((1 <<< (-e).toNat : Nat) : Int)))

def floor (x : Double) : Int :=
  let (m, e) := x.magnitude
  let a : Int := (m <<< e.toNat : Nat)
  (if x.isNegative then -a else a) / ((1 <<< (-e).toNat : Nat) : Int)

def toInt? (x : Double) : Option Int :=
  match x with
  | .nan _ => none
  | .number negative _ =>
    if x.isInfinite then none
    else
      let (m, e) := x.magnitude
      let scale := 1 <<< (-e).toNat
      if m % scale = 0 then
        let a : Int := ((m <<< e.toNat) / scale : Nat)
        some (if negative then -a else a)
      else none

end Double

end Covenant
