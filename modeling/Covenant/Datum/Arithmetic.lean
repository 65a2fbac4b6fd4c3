import Covenant.Datum.Compare
import Covenant.Machine.Failure
/-!
Arithmetic on data: sums, products and quotients of numbers of either kind, and the checked
arithmetic of the primitive types, which rounds single precision and keeps integers in range.
-/

namespace Covenant

namespace Datum.Number

def toDatum : Number → Datum
  | .whole i => .integer i
  | .double x => .float x

/-- A number as a double; an integer beyond the doubles is none. -/
def toDouble : Number → Except Misuse Double
  | .double x => .ok x
  | .whole i => if (Double.ofInt i).isInfinite then .error .magnitude else .ok (Double.ofInt i)

/-- Combines integers by `f`; if one of the numbers is a double, both as doubles by `g`. -/
def combine (f : Int → Int → Int) (g : Double → Double → Double) :
    Number → Number → Except Misuse Number
  | .whole a, .whole b => .ok (.whole (f a b))
  | a, b => do
    let x ← a.toDouble
    let y ← b.toDouble
    .ok (.double (g x y))

def neg (origin : Origin) : Number → Number
  | .whole i => .whole (-i)
  | .double x => .double (x.neg origin)

def abs : Number → Number
  | .whole i => .whole i.natAbs
  | .double x => .double (if x.isNegative then x.neg .literal else x)

def nonNegative (a : Number) : Bool :=
  match a.compare (.whole 0) with
  | some o => o != .lt
  | none => false

/-- The natural nearest to a finite double that is at least zero, a half going down. -/
def nearestWhole (x : Double) : Nat :=
  let (m, e) := x.magnitude
  let scale := 1 <<< (-e).toNat
  let n := m <<< e.toNat
  if scale < 2 * (n % scale) then n / scale + 1 else n / scale

/-- The whole part of the quotient of two doubles that are at least zero: the dividend less the
remainder is divided, which leaves a whole number up to rounding. -/
def floorDouble (origin : Origin) (x y : Double) : Double :=
  if x.isNan || y.isNan then .nan origin
  else match x.rem origin y with
    | none => .nan origin
    | some rest =>
      let q := Double.div origin (Double.sub origin x rest) y
      if q.isInfinite then q else Double.ofInt (nearestWhole q)

/-- The quotient rounded toward zero, by a number other than zero. -/
def truncatedQuotient (origin : Origin) (a b : Number) : Except Misuse Number := do
  let q ← combine (· / ·) (floorDouble origin) a.abs b.abs
  .ok (if a.nonNegative == b.nonNegative then q else q.neg origin)

/-- The exact quotient, rounded once, by a number other than zero. -/
def quotient (origin : Origin) : Number → Number → Except Misuse Number
  | .whole a, .whole b =>
    let q := Double.ofRatio (decide (a < 0) != decide (b < 0)) a.natAbs b.natAbs
    if q.isInfinite then .error .magnitude else .ok (.double q)
  | a, b => do
    let x ← a.toDouble
    let y ← b.toDouble
    .ok (.double (Double.div origin x y))

end Datum.Number

namespace Datum

def asNumber (d : Datum) : Except Misuse Number :=
  match d.number? with
  | some n => .ok n
  | none => .error .kind

/-- Numbers are added; texts, bytes and lists are joined. -/
def plus (origin : Origin) : Datum → Datum → Except Misuse Datum
  | .text a, .text b => .ok (.text (a ++ b))
  | .bytes a, .bytes b => .ok (.bytes (a ++ b))
  | .list a, .list b => .ok (.list (a ++ b))
  | a, b => do
    let x ← a.asNumber
    let y ← b.asNumber
    return (← Number.combine (· + ·) (Double.add origin) x y).toDatum

def minus (origin : Origin) (a b : Datum) : Except Misuse Datum := do
  let x ← a.asNumber
  let y ← b.asNumber
  return (← Number.combine (· - ·) (Double.sub origin) x y).toDatum

def repeated {α : Type} (n : Int) (parts : List α) : List α :=
  (List.replicate n.toNat parts).flatten

/-- Numbers are multiplied; texts, bytes and lists are repeated. -/
def times (origin : Origin) (a b : Datum) : Except Misuse Datum :=
  match a, b, a.number?, b.number? with
  | _, _, some x, some y => return (← Number.combine (· * ·) (Double.mul origin) x y).toDatum
  | .text s, _, _, some (.whole n) => .ok (.text (String.ofList (repeated n s.toList)))
  | _, .text s, some (.whole n), _ => .ok (.text (String.ofList (repeated n s.toList)))
  | .bytes s, _, _, some (.whole n) => .ok (.bytes (repeated n s))
  | _, .bytes s, some (.whole n), _ => .ok (.bytes (repeated n s))
  | .list s, _, _, some (.whole n) => .ok (.list (repeated n s))
  | _, .list s, some (.whole n), _ => .ok (.list (repeated n s))
  | _, _, _, _ => .error .kind

def negated (origin : Origin) (a : Datum) : Except Misuse Datum := do
  return ((← a.asNumber).neg origin).toDatum

/-- A number in single precision. An integer too large for it does not fit; a double too large
becomes infinite. -/
def single (origin : Origin) : Datum → Except Misuse Datum
  | .float x => .ok (.float (x.roundSingle origin))
  | d =>
    match d.number? with
    | some (.whole i) =>
      let x := Double.ofInt i
      if x.isInfinite || x.singleBits == none then .error .width
      else .ok (.float (x.roundSingle origin))
    | _ => .error .width

/-- The result of an operation before rounding and before the range check. Division and remainder
of the types of doubles are those of the doubles, of all other types those of truncated
division. -/
def raw (origin : Origin) (op : Arith) (isFloat : Bool) (a b : Datum) : Except Misuse Datum :=
  match op with
  | .add => plus origin a b
  | .sub => minus origin a b
  | .mul => times origin a b
  | .div => do
    let x ← a.asNumber
    let y ← b.asNumber
    if isFloat then return (← Number.quotient origin x y).toDatum
    else return (← Number.truncatedQuotient origin x y).toDatum
  | .mod => do
    let x ← a.asNumber
    let y ← b.asNumber
    if isFloat then
      match (← x.toDouble).rem origin (← y.toDouble) with
      | some r => return .float r
      | none => .error .domain
    else
      let q ← Number.truncatedQuotient origin x y
      let p ← Number.combine (· * ·) (Double.mul origin) y q
      return (← Number.combine (· - ·) (Double.sub origin) x p).toDatum
  | .neg => negated origin a
  | .other _ => negated origin a

def within (low high : Int) (n : Number) : Bool :=
  (match Number.compare (.whole low) n with
    | some o => o != .gt
    | none => false) &&
  match n.compare (.whole high) with
  | some o => o != .gt
  | none => false

/-- Checked arithmetic of a primitive type. A result that is not a number is marked with
`origin`. -/
def arith (origin : Origin) (op : Arith) (p : Primitive) (a b : Datum) : Except Failure Datum :=
  if (op == .div || op == .mod) && b.eq (.integer 0) then .error .divisionByZero
  else do
    let r ← Failure.lift (raw origin op p.isFloat a b)
    if p == .f64 then return r
    else if p == .f32 then Failure.lift (single origin r)
    else match p.range? with
      | none => .error (.misuse .member)
      | some (low, high) =>
        let n ← Failure.lift r.asNumber
        if within low high n then return r else .error (.overflow op p)

end Datum

end Covenant
