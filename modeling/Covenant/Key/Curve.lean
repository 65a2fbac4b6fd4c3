/-!
The curve `y ^ 2 = x ^ 3 + 7` over the field of a 256 bit prime, and its points. A coordinate is a
number of 32 bytes and stands for its remainder by the prime; keys are told apart by the bytes.
-/

namespace Covenant

/-- The prime of the field that coordinates are taken from, `2 ^ 256 - 2 ^ 32 - 977`. -/
abbrev fieldPrime : Nat :=
  0xfffffffffffffffffffffffffffffffffffffffffffffffffffffffefffffc2f

/-- What no 32 bytes reach, `2 ^ 256`. -/
abbrev coordinateBound : Nat :=
  0x10000000000000000000000000000000000000000000000000000000000000000

/-- A coordinate as it is written, in 32 bytes. -/
abbrev Coordinate := Fin coordinateBound

/-- A public key: a point of the curve, or the pair of zeros that stands for no key. -/
structure Key where
  x : Coordinate
  y : Coordinate
deriving DecidableEq, Repr

namespace Key

/-- The key that no caller holds. -/
def null : Key := ⟨0, 0⟩

def isNull (k : Key) : Bool := k.x.val == 0 && k.y.val == 0

/-- Whether natural coordinates satisfy the equation of the curve. -/
def onCurve (x y : Nat) : Bool := y * y % fieldPrime == (x * x * x + 7) % fieldPrime

def IsPoint (k : Key) : Prop := onCurve k.x.val k.y.val = true

instance (k : Key) : Decidable k.IsPoint := inferInstanceAs (Decidable (_ = true))

/-- The key of two coordinates that pass a test. -/
def accepted? (test : Nat → Nat → Bool) (x y : Nat) : Option Key :=
  if h : x < coordinateBound ∧ y < coordinateBound then
    if test x y then some ⟨⟨x, h.1⟩, ⟨y, h.2⟩⟩ else none
  else none

/-- `a ^ e` modulo `m`; `n` bounds the bits of `e`. -/
def power (m a : Nat) : Nat → Nat → Nat
  | 0, _ => 1
  | n + 1, e =>
    let half := power m (a * a % m) n (e / 2)
    if e % 2 = 1 then a * half % m else half

/-- The point with the given first coordinate, below the prime, whose second one has the given
parity. A square root is a power here, because the prime leaves 3 when divided by 4. -/
def ofCompressed? (odd : Bool) (x : Nat) : Option Key :=
  let root := power fieldPrime ((x * x * x + 7) % fieldPrime) 256 ((fieldPrime + 1) / 4)
  if x < fieldPrime then
    accepted? onCurve x (if (root % 2 == 1) == odd then root else fieldPrime - root)
  else none

end Key

/-- What reading a key asks of those who know the points of the curve. -/
structure Points where
  /-- whether two coordinates are those of a point -/
  has : Nat → Nat → Bool
  /-- the point with a first coordinate whose second one is odd, or even -/
  withParity? : Bool → Nat → Option Key

/-- The points by the remainders of their coordinates; one that is found by its first coordinate alone
has it below the prime. -/
def Points.modular : Points := ⟨Key.onCurve, Key.ofCompressed?⟩

end Covenant
