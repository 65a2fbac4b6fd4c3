import Covenant.Machine.Run
/-!
Running code that no linker has checked: words with operands of any kind. Slots and places below
zero count from the end, and what is counted from the end runs on into the beginning.
-/

namespace Covenant

namespace Instruction

/-- Code stands twice after two instructions for what is at no place: one for places that there are
not, and one for numbers that are no places. This is where the second of them is. -/
def noPlace : Nat := 1

def firstPlace : Nat := 2

/-- Where code that stands twice has the place that an operand names. -/
def target? (length : Nat) (operand : Datum) : Option Nat :=
  match operand.number? with
  | none => none
  | some (.whole i) =>
    if 0 ≤ i then some (firstPlace + length + i.toNat)
    else if i.natAbs ≤ length then some (firstPlace + length - i.natAbs)
    else some 0
  | some (.double x) =>
    match x.compareInt length with
    | some .gt | some .eq => some (firstPlace + 2 * length)
    | _ => some noPlace

/-- The instruction that a word and an operand name among `length` others and with a number of
locals. An unknown kind of value is pushed all the same, and an unknown operation of a primitive
type negates the lower of two values. -/
def unchecked (length locals : Nat) (word : String) (operand : Datum) : Instruction Nat :=
  let named (f : String → Instruction Nat) : Instruction Nat :=
    match operand with
    | .text s => f s
    | _ => .loose (.text word) operand
  let counted (f : Int → Instruction Nat) : Instruction Nat :=
    match operand.whole? with
    | some i => f i
    | none => .loose (.text word) operand
  let jumping (f : Nat → Instruction Nat) : Instruction Nat :=
    match target? length operand with
    | some place => f place
    | none => .loose (.text word) operand
  let slot (i : Int) : Nat := (Datum.fromEnd? locals i).getD locals
  let chars := word.toList
  let first := chars.takeWhile (· != '.')
  let rest := String.ofList (chars.drop (first.length + 1))
  match word with
  | "load.this" => named .loadThis
  | "store.this" => named .storeThis
  | "load.local" => counted fun i => .loadLocal (slot i)
  | "store.local" => counted fun i => .storeLocal (slot i)
  | "load.ctx" => .loadContext operand.shown
  | "get.field" => named .getField
  | "deref" => named .deref
  | "array.new" => counted fun i => .arrayNew i.toNat
  | "set.field" | "array.get" | "array.set" | "array.push" | "array.index_of" | "array.includes"
  | "abort" => .loose (.text word) operand
  | "jmp" => jumping .jump
  | "jz" => jumping .jumpIfFalse
  | "jnz" => jumping .jumpIfTrue
  | _ =>
    if "push.".toList.isPrefixOf chars then
      .push (if rest = "key" then .key else
        match Primitive.ofName? rest with
        | some p => .primitive p
        | none => .other rest) operand
    else match plain.find? fun i => i.name == word with
      | some i => i
      | none =>
        match Primitive.ofName? rest with
        | some p => .arith (Arith.ofName (String.ofList first)) p
        | none => .loose (.text word) operand

end Instruction

namespace Machine

/-- The steps of a run whose limit is never reached. -/
def endless : Nat := 0x7fffffffffffffff

def stepsWithin : Datum.Number → Nat
  | .whole i => i.toNat
  | .double x =>
    match x.compareInt 0 with
    | some .lt => 0
    | some _ => if x.isInfinite then endless else x.floor.toNat
    | none => endless

/-- How a run ended, with all names of members as they are written. -/
def Ended.written (e : Ended) : Ended where
  outcome := e.outcome.map fun departure =>
    match departure with
    | .plain => .plain
    | .value d => .value d.written
  machine := { e.machine with
    receiver := e.machine.receiver.written
    stack := e.machine.stack.map Datum.written }

/-- Runs words with operands, on a receiver and locals. A limit that is no number fails as soon as
steps are compared with it. -/
def runUnchecked (lines : List (Datum × Datum)) (s : Surroundings) (limit receiver : Datum)
    (locals : List Datum) : Ended :=
  let failing : Instruction Nat := .loose (.text "load.local") .null
  let code : List (Instruction Nat) := match limit.number? with
    | some _ => lines.map fun (word, operand) =>
      match word with
      | .text word => .unchecked lines.length locals.length word operand
      | word => .loose word operand
    | none => lines.map fun _ => failing
  let budget := (limit.number?.map stepsWithin).getD 1
  let front : List (Instruction Nat) := [.loadLocal locals.length, failing]
  let beginning := { start receiver locals with place := Instruction.firstPlace + lines.length }
  (runFrom (front ++ code ++ code).toArray s limit budget beginning).written

end Machine

end Covenant
