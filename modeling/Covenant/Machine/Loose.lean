import Covenant.Machine.Basic
import Covenant.Machine.Member
/-!
Operations as unchecked code has them: with operands of a kind that the linker refuses, and on
records whose members are named by data other than texts. The machine fails where an operand is
needed, after what comes before that.
-/

namespace Covenant

namespace Datum

/-- The place that counting from the end gives when a number is below zero. -/
def fromEnd? (length : Nat) (i : Int) : Option Nat :=
  if 0 ≤ i then some i.toNat
  else if i.natAbs ≤ length then some (length - i.natAbs)
  else none

def whole? (operand : Datum) : Option Int :=
  match operand.number? with
  | some (.whole i) => some i
  | _ => none

/-- Integers of this size or more are at no place, even where parts cannot be replaced. -/
def wordBound : Int := 0x8000000000000000

/-- The place that an operand names among a number of them. -/
def selectedPlace (operand : Datum) (length : Nat) : Except Misuse Nat :=
  match operand.whole? with
  | none => .error .kind
  | some i =>
    match fromEnd? length i with
    | some place => if place < length then .ok place else .error .position
    | none => .error .position

def selected (d operand : Datum) : Except Misuse Datum :=
  match d with
  | .record fields => operand.member? fields
  | d => do
    let parts ← d.parts
    match parts[← operand.selectedPlace parts.length]? with
    | some part => return part
    | none => .error .position

def withSelected (d operand value : Datum) : Except Misuse Datum :=
  match d with
  | .record fields =>
    if operand.isAtom then .ok (.record (setMember operand value fields)) else .error .kind
  | .list items => do return .list (items.set (← operand.selectedPlace items.length) value)
  | .text _ | .bytes _ =>
    let far := operand.whole?.any fun i => wordBound ≤ i ∨ i < -wordBound
    .error (if far then .position else .kind)
  | _ => .error .kind

end Datum

namespace Machine

/-- The record that a reference stands for, of a type that is none. -/
def lookUpNothing (contract reference : Datum) : Execution Unit :=
  match contract.isAtom, reference with
  | true, .bytes id => throw (.unsupplied contract.shown id)
  | true, d => throw (.misuse (if d.isAtom then .property else .kind))
  | false, _ => throw (.misuse .kind)

/-- Executes the operation of a word on an operand. A jump fails only if it is taken. -/
def executeWord (word : String) (operand : Datum) : Execution Unit :=
  match word with
  | "load.this" => do
    push (← require ((← get).receiver.selected operand))
  | "store.this" => do
    let d ← popStored (.field operand.shown)
    let m ← get
    set { m with receiver := ← require (m.receiver.withSelected operand d) }
  | "load.local" | "array.new" | "jmp" => throw (.misuse .kind)
  | "store.local" => do
    let _ ← pop
    throw (.misuse .kind)
  | "get.field" => do
    let d ← pop
    push (← require (d.selected operand))
  | "set.field" => do
    let value ← popStored (.field operand.shown)
    let fields ← require (← pop).namedFields
    push (← require ((Datum.record fields).withSelected operand value))
  | "deref" => do
    let reference ← pop
    lookUpNothing operand reference
  | "array.get" => do
    let index ← pop
    let d ← pop
    push (← attempt (d.elementNamed index))
  | "array.set" => do
    let value ← popStored .element
    let index ← pop
    let d ← pop
    push (← attempt (d.walked.withElement index value))
  | "array.push" => do
    let value ← popStored .element
    let d ← pop
    push (← require (d.walked.appended value))
  | "array.index_of" => do
    let target ← pop
    let d ← pop
    push (← require (d.walked.indexOf target))
  | "array.includes" => do
    let target ← pop
    let d ← pop
    push (.boolean (← require (d.includesNamed target)))
  | "abort" => do
    let d ← pop
    throw (.aborted d.message)
  | "jz" => do
    let d ← pop
    if !d.isTrue then throw (.misuse .kind)
  | "jnz" => do
    let d ← pop
    if d.isTrue then throw (.misuse .kind)
  | _ => throw (.unknownOperation word)

/-- Executes an operation of unchecked code, whose word must be a text. -/
def executeLoose (word operand : Datum) : Execution Unit :=
  match word with
  | .text word => executeWord word operand
  | .bytes _ => throw (.misuse .kind)
  | _ => throw (.misuse .property)

end Machine

end Covenant
