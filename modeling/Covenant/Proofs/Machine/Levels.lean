import Covenant.Proofs.Code.Heights
import Covenant.Proofs.Code.Typing
import Covenant.Proofs.Machine.Progress
/-!
The stack along a run. In code that agrees with heights (`Level`) it has at each place the height of that
place, and an instruction always finds the values that it takes. In code with types of its places it has as
many values as there are types (`Code.LevelsOf.reaches`).
-/

namespace Covenant.LinkedCode

open Machine

def Known (code : LinkedCode) : Prop :=
  ∀ (place : Nat) (i : Instruction Nat), code[place]? = some i → i.isKnown = true

variable {code : LinkedCode} {heights : Nat → Option Nat} {s : Surroundings} {m : Machine}

/-- What a step can come to where the stack has the height of its place. -/
theorem Level.meets (level : Level code heights) (known : code.Known)
    (height : heights m.place = some m.stack.length)
    {r : Except Failure (Option Departure) × Machine} (hs : step code s m = some r) :
    ∃ i, code[m.place]? = some i ∧ Meets i { m with steps := m.steps + 1, place := m.place + 1 } r := by
  obtain ⟨i, hi, enough, -⟩ := level _ _ height
  obtain ⟨j, hj, rfl⟩ := instruction_of_step hs
  obtain rfl : i = j := Option.some.inj (hi.symm.trans hj)
  exact ⟨i, hi, execute_meets s (known _ i hi) enough⟩

/-- After a step the stack has the height of the new place. -/
theorem Level.height_of_moves (level : Level code heights)
    (height : heights m.place = some m.stack.length) {i : Instruction Nat}
    (here : code[m.place]? = some i) {m' : Machine}
    (moves : Moves i { m with steps := m.steps + 1, place := m.place + 1 } m') :
    heights m'.place = some m'.stack.length := by
  obtain ⟨j, hj, -, next⟩ := level _ _ height
  obtain rfl : i = j := Option.some.inj (here.symm.trans hj)
  rw [next _ (moves.next m.place rfl), moves.height]

theorem Level.reaches (level : Level code heights) (known : code.Known)
    (height : heights m.place = some m.stack.length) {n : Nat} {m' : Machine}
    (h : Reaches code s m n m') : heights m'.place = some m'.stack.length := by
  refine h.invariant (P := fun m => heights m.place = some m.stack.length) (fun height hs => ?_) height
  obtain ⟨i, hi, moves⟩ := level.meets known height hs
  exact level.height_of_moves height hi moves

end Covenant.LinkedCode

/-! ## Types of the stack -/

namespace Covenant.Code.LevelsOf

open Machine

variable {l : Layout} {result : Option Ty} {abi : Abi} {header : Header} {labels : List (String × Nat)}
  {code : LinkedCode} {levels : Nat → Option (List Ty)} {s : Surroundings} {m m' : Machine}
  {types : List Ty}

/-- What a step can come to where the stack has a value for each type of its place. -/
theorem meets (typed : LevelsOf (Instruction.Typed l result) abi header labels code levels)
    (level : levels m.place = some types) (count : types.length = m.stack.length)
    {r : Except Failure (Option Departure) × Machine} (hs : step code s m = some r) :
    ∃ i j made, linkInstruction abi header labels i = .ok j ∧ code[m.place]? = some j ∧
      i.Typed l result types made ∧ (∀ next ∈ j.successors m.place, levels next = some made) ∧
      Meets j { m with steps := m.steps + 1, place := m.place + 1 } r := by
  obtain ⟨i, j, made, linked, here, makes, next⟩ := typed _ _ level
  obtain ⟨j', here', rfl⟩ := instruction_of_step hs
  obtain rfl : j = j' := Option.some.inj (here.symm.trans here')
  have shape := linkInstruction_shape linked
  have enough : j.pops ≤ m.stack.length := by
    rw [shape.pops, ← count]
    exact makes.raises.1
  exact ⟨i, j, made, linked, here, makes, next,
    execute_meets s (shape.isKnown.trans makes.isKnown) enough⟩

/-- After a step that goes on the stack has a value for each type of the new place. -/
theorem next (typed : LevelsOf (Instruction.Typed l result) abi header labels code levels)
    (level : levels m.place = some types) (count : types.length = m.stack.length)
    (hs : step code s m = some (.ok none, m')) : ∃ i j made,
      linkInstruction abi header labels i = .ok j ∧ code[m.place]? = some j ∧
      i.Typed l result types made ∧ levels m'.place = some made ∧ made.length = m'.stack.length := by
  obtain ⟨i, j, made, linked, here, makes, next, moves⟩ := typed.meets level count hs
  have shape := linkInstruction_shape linked
  refine ⟨i, j, made, linked, here, makes, next _ (moves.next _ rfl), ?_⟩
  rw [moves.height, shape.pops, shape.pushes, ← count]
  exact makes.raises.2

theorem reaches (typed : LevelsOf (Instruction.Typed l result) abi header labels code levels)
    (level : levels m.place = some types) (count : types.length = m.stack.length) {n : Nat}
    (h : Reaches code s m n m') : ∃ types, levels m'.place = some types ∧
      types.length = m'.stack.length := by
  refine h.invariant
    (P := fun m => ∃ types, levels m.place = some types ∧ types.length = m.stack.length) ?_
    ⟨types, level, count⟩
  rintro m m' ⟨types, level, count⟩ hs
  obtain ⟨-, -, made, -, -, -, next, count'⟩ := typed.next level count hs
  exact ⟨made, next, count'⟩

end Covenant.Code.LevelsOf
