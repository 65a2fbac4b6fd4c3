import Covenant.Code.Text
/-!
The check of linked code on the stack: every place that can be reached is inside the code and is
always reached with the same number of values on the stack, as many as its instruction takes or
more.
-/

namespace Covenant

abbrev LinkedCode := Array (Instruction Nat)

namespace Instruction

/-- Where execution can go from the instruction at a place, the way to walk first being first. -/
def successors (place : Nat) (i : Instruction Nat) : List Nat :=
  if i.isLast then []
  else match i with
    | .jump target => [target]
    | .jumpIfFalse target | .jumpIfTrue target => [place + 1, target]
    | _ => [place + 1]

end Instruction

namespace LinkedCode

/-- Walks from the pending places, each with the number of values on the stack there. `depths` holds
the numbers at the places that have been walked through; `fuel` bounds the number of places taken
from the pending ones. -/
def walk (code : LinkedCode) : Nat → List (Option Nat) → List (Nat × Nat) → Except LinkFault Unit
  | _, _, [] => .ok ()
  | 0, _, _ :: _ => .error .pastEnd
  | fuel + 1, depths, (place, depth) :: pending =>
    match code[place]? with
    | none => .error .pastEnd
    | some i =>
      match depths.getD place none with
      | some seen =>
        if seen = depth then walk code fuel depths pending
        else .error (.depths place seen depth)
      | none =>
        if depth < i.pops then .error (.underflow place i.name)
        else
          let after := depth - i.pops + i.pushes
          walk code fuel (depths.set place (some depth))
            ((i.successors place).map (fun next => (next, after)) ++ pending)

/-- Every place is walked through once and adds at most two pending ones. -/
def checkStack (code : LinkedCode) : Except LinkFault Unit :=
  code.walk (2 * code.size + 2) (List.replicate code.size none) [(0, 0)]

end LinkedCode

end Covenant
