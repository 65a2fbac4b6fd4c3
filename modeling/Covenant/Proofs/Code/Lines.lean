import Covenant.Proofs.Code.Linking
import Covenant.Proofs.Except
import Covenant.Proofs.Machine.Progress
/-!
Instructions as they are written, read and linked:

* `isKnown_of_read`: text gives instructions of the table only;
* `linkInstruction_shape`: linking changes neither what an instruction takes from the stack nor
  what it puts there, and leads on to the next place or to the place of its label.
-/

namespace Covenant

namespace Line

/-- A line that written code can hold. -/
def isKnown : Line → Bool
  | .label _ => true
  | .instruction i => i.isKnown

/-- A way to complete a line that gives known lines only. -/
def GivesKnown (completion : Completion) : Prop :=
  ∀ operand line, completion operand = some line → line.isKnown = true

theorem givesKnown_withName {f : String → Instruction String} (hf : ∀ s, (f s).isKnown = true) :
    GivesKnown (withName f) := by
  intro operand line h
  cases operand with
  | text s =>
    simp only [withName, Option.ite_none_left_eq_some, Option.some.injEq] at h
    exact h.2 ▸ hf s
  | _ => cases h

theorem givesKnown_withCount {f : Nat → Instruction String} (hf : ∀ n, (f n).isKnown = true) :
    GivesKnown (withCount f) := by
  intro operand line h
  cases operand with
  | integer i =>
    simp only [withCount, Option.ite_none_right_eq_some, Option.some.injEq] at h
    exact h.2 ▸ hf _
  | _ => cases h

theorem givesKnown_alone {i : Instruction String} (hi : i.isKnown = true) :
    GivesKnown (alone i) := by
  intro operand line h
  cases operand with
  | null => exact Option.some.inj h ▸ hi
  | _ => cases h

theorem givesKnown_withLabel : GivesKnown withLabel := by
  intro operand line h
  cases operand with
  | text s =>
    simp only [withLabel, Option.ite_none_left_eq_some, Option.some.injEq] at h
    exact h.2 ▸ rfl
  | _ => cases h

theorem givesKnown_withLiteral (type : Primitive) : GivesKnown (withLiteral type) := by
  intro operand line h
  simp only [withLiteral, Option.ite_none_right_eq_some, Option.some.injEq] at h
  exact h.2 ▸ rfl

theorem isKnown_of_plain : ∀ i ∈ (Instruction.plain : List (Instruction String)) ++ arithmetic,
    i.isKnown = true := by
  intro i hi
  rcases List.mem_append.mp hi with hi | hi
  · simp only [Instruction.plain, Comparison.all, List.map_cons, List.map_nil, List.cons_append,
      List.nil_append, List.mem_cons, List.not_mem_nil, or_false] at hi
    rcases hi with rfl | rfl | rfl | rfl | rfl | rfl | rfl | rfl | rfl | rfl | rfl | rfl | rfl |
      rfl | rfl | rfl | rfl | rfl | rfl | rfl | rfl | rfl | rfl <;> rfl
  · obtain ⟨type, -, hi⟩ := List.mem_flatMap.mp hi
    obtain ⟨op, -, rfl⟩ := List.mem_map.mp hi
    rfl

/-- Every entry of the table gives known lines. -/
theorem givesKnown_of_completion {word : String} {completion : Completion}
    (h : completion? word = some completion) : GivesKnown completion := by
  have hm := mem_of_lookup h
  rcases List.mem_append.mp hm with hm | hm
  · rcases List.mem_append.mp hm with hm | hm
    · simp only [List.mem_cons, Prod.mk.injEq, List.not_mem_nil, or_false] at hm
      rcases hm with ⟨-, rfl⟩ | ⟨-, rfl⟩ | ⟨-, rfl⟩ | ⟨-, rfl⟩ | ⟨-, rfl⟩ | ⟨-, rfl⟩ | ⟨-, rfl⟩ |
        ⟨-, rfl⟩ | ⟨-, rfl⟩ | ⟨-, rfl⟩ | ⟨-, rfl⟩ | ⟨-, rfl⟩ | ⟨-, rfl⟩ | ⟨-, rfl⟩ <;>
        first
        | exact givesKnown_withName fun _ => rfl
        | exact givesKnown_withCount fun _ => rfl
        | exact givesKnown_withLabel
    · obtain ⟨type, -, he⟩ := List.mem_map.mp hm
      obtain ⟨-, rfl⟩ := Prod.mk.inj he
      exact givesKnown_withLiteral type
  · obtain ⟨i, hi, he⟩ := List.mem_map.mp hm
    obtain ⟨-, rfl⟩ := Prod.mk.inj he
    exact givesKnown_alone (isKnown_of_plain i hi)

theorem isKnown_of_read {number : Nat} {text : List Char} {line : Line}
    (h : Line.read number text = .ok line) : line.isKnown = true := by
  simp only [Line.read] at h
  split at h
  · cases h
  · rename_i completion hc
    obtain ⟨operand, -, h⟩ := bind_eq_ok.mp h
    split at h
    · rename_i line' hl
      cases h
      exact givesKnown_of_completion hc operand _ hl
    · cases h

end Line

namespace Code

theorem isKnown_of_readLines {number : Nat} {lines : List (List Char)} {code : Code}
    (h : readLines number lines = .ok code) : ∀ line ∈ code, line.isKnown = true := by
  induction lines generalizing number code with
  | nil =>
    cases h
    simp
  | cons first rest ih =>
    obtain ⟨line, hl, h⟩ := bind_eq_ok.mp h
    obtain ⟨code', hr, h⟩ := bind_eq_ok.mp h
    obtain rfl := pure_eq_ok.mp h
    intro line' hm
    rcases List.mem_cons.mp hm with rfl | hm
    · exact Line.isKnown_of_read hl
    · exact ih hr line' hm

/-- Text gives known instructions only. -/
theorem isKnown_of_read {text : String} {header : Header} {code : Code}
    (h : Code.read text = .ok (header, code)) : ∀ line ∈ code, line.isKnown = true := by
  rw [Code.read] at h
  split at h
  · cases h
  · obtain ⟨header', -, h⟩ := bind_eq_ok.mp h
    obtain ⟨code', hr, h⟩ := bind_eq_ok.mp h
    obtain ⟨-, rfl⟩ := Prod.mk.inj (pure_eq_ok.mp h)
    exact isKnown_of_readLines hr

end Code

namespace Instruction

variable {Target : Type}

def jumpTarget? : Instruction Target → Option Target
  | .jump target | .jumpIfFalse target | .jumpIfTrue target => some target
  | _ => none

def goesOn : Instruction Target → Bool
  | .jump _ => false
  | i => !i.isLast

def refuses : Instruction Target → Bool
  | .abortUnauthorized => true
  | _ => false

theorem goesOn_of_isLast {i : Instruction Target} (h : i.isLast = true) : i.goesOn = false := by
  cases i <;> first | rfl | cases h

theorem jumpTarget_of_isLast {i : Instruction Target} (h : i.isLast = true) :
    i.jumpTarget? = none := by
  cases i <;> first | rfl | cases h

theorem mem_successors {place next : Nat} {i : Instruction Nat} (h : next ∈ i.successors place) :
    (i.goesOn = true ∧ next = place + 1) ∨ i.jumpTarget? = some next := by
  cases i <;>
    simp_all [successors, isLast, goesOn, jumpTarget?, eq_comm]

end Instruction

namespace Code

open Instruction

structure SameShape (labels : List (String × Nat)) (i : Instruction String) (j : Instruction Nat) :
    Prop where
  pops : j.pops = i.pops
  pushes : j.pushes = i.pushes
  isKnown : j.isKnown = i.isKnown
  refuses : j.refuses = i.refuses
  isLast : j.isLast = i.isLast
  goesOn : j.goesOn = i.goesOn
  target : ∀ next, j.jumpTarget? = some next → ∃ name, i.jumpTarget? = some name ∧
    labels.lookup name = some next

theorem linkTarget_eq_ok {labels : List (String × Nat)} {name : String} {place : Nat} :
    linkTarget labels name = .ok place ↔ labels.lookup name = some place := by
  unfold linkTarget
  cases labels.lookup name <;> simp

theorem linkInstruction_shape {abi : Abi} {header : Header} {labels : List (String × Nat)}
    {i : Instruction String} {j : Instruction Nat}
    (h : linkInstruction abi header labels i = .ok j) : SameShape labels i j := by
  cases i with
  | jump name | jumpIfFalse name | jumpIfTrue name =>
    obtain ⟨place, hp, h⟩ := bind_eq_ok.mp h
    obtain rfl := pure_eq_ok.mp h
    exact ⟨rfl, rfl, rfl, rfl, rfl, rfl, fun next hn => by
      cases hn
      exact ⟨name, rfl, linkTarget_eq_ok.mp hp⟩⟩
  | push kind operand | loadThis name | storeThis name | loadLocal slot | storeLocal slot =>
    obtain ⟨_, -, h⟩ := bind_eq_ok.mp h
    obtain rfl := pure_eq_ok.mp h
    exact ⟨rfl, rfl, rfl, rfl, rfl, rfl, fun next hn => by cases hn⟩
  | deref name | loadContext name =>
    rw [linkInstruction] at h
    split at h
    · cases h
      exact ⟨rfl, rfl, rfl, rfl, rfl, rfl, fun next hn => by cases hn⟩
    · cases h
  | arith op type =>
    cases h
    cases op <;> exact ⟨rfl, rfl, rfl, rfl, rfl, rfl, fun next hn => by cases hn⟩
  | _ =>
    cases h
    exact ⟨rfl, rfl, rfl, rfl, rfl, rfl, fun next hn => by cases hn⟩

theorem checkField_eq_ok {abi : Abi} {word name : String} (h : checkField abi word name = .ok ()) :
    (abi.thisType.bind (·.field? name)).isSome = true := by
  unfold checkField at h
  split at h
  · assumption
  · cases h

/-- An instruction that loads a field, follows a reference or copies a value is what it was written as, and
the function is described with the field and the record. -/
theorem eq_of_linkInstruction {abi : Abi} {header : Header} {labels : List (String × Nat)}
    {i : Instruction String} {j : Instruction Nat} (h : linkInstruction abi header labels i = .ok j) :
    match j with
    | .loadThis name => i = .loadThis name ∧ (abi.thisType.bind (·.field? name)).isSome = true
    | .deref contract => i = .deref contract ∧ (abi.otherType? contract).isSome = true
    | .dup => i = .dup
    | _ => True := by
  cases i with
  | loadThis name =>
    obtain ⟨⟨⟩, field, h⟩ := bind_eq_ok.mp h
    obtain rfl := pure_eq_ok.mp h
    exact ⟨rfl, checkField_eq_ok field⟩
  | deref contract =>
    rw [linkInstruction] at h
    split at h
    next known =>
      cases h
      exact ⟨rfl, known⟩
    next => cases h
  | dup =>
    cases h
    rfl
  | push _ _ | storeThis _ | loadLocal _ | storeLocal _ | jump _ | jumpIfFalse _ | jumpIfTrue _ =>
    obtain ⟨_, -, h⟩ := bind_eq_ok.mp h
    obtain rfl := pure_eq_ok.mp h
    trivial
  | loadContext _ =>
    rw [linkInstruction] at h
    split at h <;> cases h
    trivial
  | _ =>
    cases h
    trivial

end Code

end Covenant
