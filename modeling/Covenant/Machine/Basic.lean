import Covenant.Code.StackWalk
import Covenant.Datum.Access
/-!
The state of the stack machine, and the small steps that its instructions are made of. What is left
on the stack stays visible.
-/

namespace Covenant

/-- What a run can refer to besides its receiver. -/
structure Surroundings where
  callerKey : Option Key
  /-- the supplied records of each type by their ids, later ones of an id first -/
  records : List (String × List (Bytes × Datum))

/-- The state between two instructions. -/
structure Machine where
  /-- the last value first -/
  stack : List Datum
  locals : List Datum
  /-- a record, or null when there is none -/
  receiver : Datum
  place : Nat
  steps : Nat
  /-- how many operations of arithmetic have been executed -/
  computed : Nat

/-- What an instruction does: it fails, or execution goes on, or the function leaves, perhaps with a
value. Values it has taken from the stack are gone even if it fails. -/
abbrev Execution := ExceptT Failure (StateM Machine)

namespace Machine

def start (receiver : Datum) (locals : List Datum) : Machine :=
  ⟨[], locals, receiver, 0, 0, 0⟩

def pop : Execution Datum := do
  let m ← get
  match m.stack with
  | [] => throw .stackUnderflow
  | d :: rest =>
    set { m with stack := rest }
    return d

def push (d : Datum) : Execution Unit := modify fun m => { m with stack := d :: m.stack }

def require {α : Type} (r : Except Misuse α) : Execution α :=
  match r with
  | .ok a => pure a
  | .error why => throw (.misuse why)

def attempt {α : Type} (r : Except Failure α) : Execution α :=
  match r with
  | .ok a => pure a
  | .error f => throw f

/-- Takes a value that is stored: not an absent key. -/
def popStored (place : Place) : Execution Datum := do
  match ← pop with
  | .null => throw (.absentKey place)
  | d => return d

/-- The mark for a result that is no number, of this operation of arithmetic. -/
def nextOrigin : Execution Origin := do
  let m ← get
  set { m with computed := m.computed + 1 }
  return .computed m.computed

def goto (place : Nat) : Execution Unit := modify fun m => { m with place := place }

end Machine

end Covenant
