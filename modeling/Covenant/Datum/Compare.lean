import Covenant.Datum.Basic
/-!
Equality and order of data. Booleans count as 0 and 1, integers and doubles compare by their exact
values. Two values that are not numbers are the same only if they have one origin, and are never
equal.
-/

namespace Covenant.Datum

inductive Number
  | whole (value : Int)
  | double (value : Double)

def number? : Datum → Option Number
  | .boolean b => some (.whole (if b then 1 else 0))
  | .integer i => some (.whole i)
  | .float x => some (.double x)
  | _ => none

/-- How two numbers compare; what is not a number compares with nothing. -/
def Number.compare : Number → Number → Option Ordering
  | .whole a, .whole b => some (Ord.compare a b)
  | .whole a, .double y => (y.compareInt a).map Ordering.swap
  | .double x, .whole b => x.compareInt b
  | .double x, .double y =>
    if x.eq y then some .eq else if x.lt y then some .lt else if y.lt x then some .gt else none

def Number.eq (a b : Number) : Bool := a.compare b == some .eq

/-- One origin, for two doubles that are not numbers. -/
def sameOrigin : Double → Double → Bool
  | .nan a, .nan b => a == b
  | _, _ => false

mutual
/-- Equality by parts, a value that is not a number being the same as itself. -/
def same : Datum → Datum → Bool
  | .null, .null => true
  | .boolean a, d => sameNumber (.whole (if a then 1 else 0)) d.number?
  | .integer a, d => sameNumber (.whole a) d.number?
  | .float x, d =>
    sameNumber (.double x) d.number? || match d with
      | .float y => sameOrigin x y
      | _ => false
  | .text a, .text b => a == b
  | .bytes a, .bytes b => a == b
  | .key a, .key b => a == b
  | .list as, .list bs => sameItems as bs
  | .record as, .record bs => as.length == bs.length && sameFields as bs
  | _, _ => false

def sameNumber (a : Number) : Option Number → Bool
  | some b => a.eq b
  | none => false

def sameItems : List Datum → List Datum → Bool
  | [], [] => true
  | a :: as, b :: bs => same a b && sameItems as bs
  | _, _ => false

/-- Every member of the first record is in the second, whatever the order. -/
def sameFields : List (String × Datum) → List (String × Datum) → Bool
  | [], _ => true
  | (name, a) :: as, bs =>
    (match bs.lookup name with
      | some b => same a b
      | none => false) && sameFields as bs
end

/-- Equality: as `same`, but what is not a number does not equal itself. -/
def eq (a b : Datum) : Bool :=
  match a, b with
  | .float x, .float y => x.eq y
  | _, _ => same a b

inductive Order
  | less
  | lessEqual
  | greater
  | greaterEqual
deriving DecidableEq, Repr

def Order.allows : Order → Ordering → Bool
  | .less, o => o == .lt
  | .lessEqual, o => o != .gt
  | .greater, o => o == .gt
  | .greaterEqual, o => o != .lt

/-- Lists compare by their first items that are not the same, and else by length; so do texts and
bytes. Other kinds have no order. -/
def order (o : Order) : Datum → Datum → Except Misuse Bool
  | .text a, .text b => .ok (o.allows (compareOfLessAndEq a b))
  | .bytes a, .bytes b => .ok (o.allows (Ord.compare (a.map UInt8.toNat) (b.map UInt8.toNat)))
  | .list as, .list bs => orderItems as bs
  | a, b =>
    match a.number?, b.number? with
    | some x, some y => .ok (match x.compare y with
      | some c => o.allows c
      | none => false)
    | _, _ => .error .kind
where
  orderItems : List Datum → List Datum → Except Misuse Bool
    | [], bs => .ok (o.allows (if bs.isEmpty then .eq else .lt))
    | _ :: _, [] => .ok (o.allows .gt)
    | a :: as, b :: bs => if same a b then orderItems as bs else order o a b

end Covenant.Datum
