import Covenant.Machine.Loose
/-!
The stack machine. A run ends when the function leaves, when an instruction fails, or when the
budget of steps is used up.
-/

namespace Covenant

namespace Machine

/-- The values that a new array of a number of items takes, the last one first. When there are not
as many on the stack, the surplus wanted is taken instead. -/
def itemCount (count size : Nat) : Nat := if count ≤ size then count else count - size

def lookUp (s : Surroundings) (contract : String) (reference : Datum) : Execution Datum :=
  match reference with
  | .bytes id =>
    match ((s.records.lookup contract).getD []).lookup id with
    | none | some .null => throw (.unsupplied contract id)
    | some record => pure record
  | d => throw (.misuse (if d.isAtom then .property else .kind))

def compared (c : Comparison) (a b : Datum) : Execution Bool :=
  match c with
  | .equal => pure (a.eq b)
  | .notEqual => pure (!a.eq b)
  | .less => require (a.order .less b)
  | .lessEqual => require (a.order .lessEqual b)
  | .greater => require (a.order .greater b)
  | .greaterEqual => require (a.order .greaterEqual b)

/-- Whether a caller's key is a key and the other one. -/
def keyMatches (a b : Datum) : Bool :=
  match a with
  | .key k => !k.isNull && a.eq b
  | _ => false

inductive Departure
  | plain
  | value (result : Datum)

/-- Executes one instruction, the place being that of the next one already. -/
def execute (s : Surroundings) : Instruction Nat → Execution (Option Departure)
  | .push _ d => do push d; return none
  | .loadThis name => do
    push (← require ((← get).receiver.member name)); return none
  | .storeThis name => do
    let d ← popStored (.field name)
    let m ← get
    match m.receiver with
    | .record fields => set { m with receiver := .record (setField name d fields) }; return none
    | _ => throw (.misuse .kind)
  | .loadLocal slot => do
    match (← get).locals[slot]? with
    | some d => push d; return none
    | none => throw (.misuse .position)
  | .storeLocal slot => do
    let d ← pop
    let m ← get
    if slot < m.locals.length then set { m with locals := m.locals.set slot d }; return none
    else throw (.misuse .position)
  | .loadContext _ => do
    push (match s.callerKey with
      | some k => .key k
      | none => .null)
    return none
  | .getField name => do
    let d ← pop
    push (← require (d.member name)); return none
  | .setField name => do
    let value ← popStored (.field name)
    let d ← pop
    push (← require (d.withMember name value)); return none
  | .deref contract => do
    let reference ← pop
    push (← lookUp s contract reference); return none
  | .arrayNew count => do
    let m ← get
    let n := itemCount count m.stack.length
    set { m with stack := m.stack.drop n }
    push (.list (m.stack.take n).reverse); return none
  | .arrayLength | .textLength => do
    let d ← pop
    push (.integer (← require d.size)); return none
  | .arrayGet => do
    let index ← pop
    let d ← pop
    push (← attempt (d.element index)); return none
  | .arraySet => do
    let value ← popStored .element
    let index ← pop
    let d ← pop
    push (← attempt (d.withElement index value)); return none
  | .arrayPush => do
    let value ← popStored .element
    let d ← pop
    push (← require (d.appended value)); return none
  | .arrayIndexOf => do
    let target ← pop
    let d ← pop
    push (← require (d.indexOf target)); return none
  | .arrayIncludes => do
    let target ← pop
    let d ← pop
    push (.boolean (← require (d.includes target))); return none
  | .concat => do
    let b ← pop
    let a ← pop
    let origin ← nextOrigin
    push (← require (a.plus origin b)); return none
  | .compare c => do
    let b ← pop
    let a ← pop
    push (.boolean (← compared c a b)); return none
  | .keyMatch => do
    let b ← pop
    let a ← pop
    push (.boolean (keyMatches a b)); return none
  | .not => do
    let d ← pop
    push (.boolean (!d.isTrue)); return none
  | .truthy => do
    let d ← pop
    push (.boolean d.holds); return none
  | .jump target => do goto target; return none
  | .jumpIfFalse target => do
    let d ← pop
    if !d.isTrue then goto target
    return none
  | .jumpIfTrue target => do
    let d ← pop
    if d.isTrue then goto target
    return none
  | .dup => do
    let d ← pop
    push d
    push d; return none
  | .drop => do let _ ← pop; return none
  | .abort => do
    let d ← pop
    throw (.aborted d.shown)
  | .abortUnauthorized => throw .unauthorized
  | .leave => return some .plain
  | .leaveValue => do
    let d ← pop
    return some (.value d)
  | .arith .neg type => do
    let a ← pop
    let origin ← nextOrigin
    push (← attempt (a.arith origin .neg type .null)); return none
  | .arith op type => do
    let b ← pop
    let a ← pop
    let origin ← nextOrigin
    push (← attempt (a.arith origin op type b)); return none
  | .loose word operand => do executeLoose word operand; return none

structure Ended where
  outcome : Except Failure Departure
  machine : Machine

/-- Runs until the end, with a budget of steps left of the given limit, which the failure names. -/
def runFrom (code : LinkedCode) (s : Surroundings) (limit : Datum) : Nat → Machine → Ended
  | budget, m =>
    match code[m.place]? with
    | none => ⟨.error .pastEnd, m⟩
    | some i =>
      let m := { m with steps := m.steps + 1 }
      match budget with
      | 0 => ⟨.error (.stepLimit limit), m⟩
      | budget + 1 =>
        match (execute s i).run { m with place := m.place + 1 } with
        | (.error f, m) => ⟨.error f, m⟩
        | (.ok (some departure), m) => ⟨.ok departure, m⟩
        | (.ok none, m) => runFrom code s limit budget m

def run (code : LinkedCode) (s : Surroundings) (limit : Nat) (m : Machine) : Ended :=
  runFrom code s (.integer limit) limit m

end Machine

end Covenant
