import Covenant.Proofs.Code.Heights
import Covenant.Proofs.Code.Lines
/-!
The check of linked code on the stack says exactly what it is for:

* `Edge`, `Reachable`: where execution may go, by what the instructions are;
* `Balanced`: one height for each place that can be reached, which the edges respect;
* `stack_walk_is_exact`: the walks of the check end, in whatever order they take the pending places,
  and end well just when the code is balanced.
-/

namespace Covenant

namespace LinkedCode

inductive Edge (code : LinkedCode) (place : Nat) : Nat → Prop
  | next {i : Instruction Nat} (here : code[place]? = some i) (goesOn : i.goesOn = true) :
      Edge code place (place + 1)
  | jump {i : Instruction Nat} {target : Nat} (here : code[place]? = some i)
      (jumps : i.jumpTarget? = some target) : Edge code place target

inductive Reachable (code : LinkedCode) : Nat → Prop
  | start : Reachable code 0
  | step {place next : Nat} (before : Reachable code place) (edge : code.Edge place next) :
      Reachable code next

/-- One height of the stack for each place that can be reached. -/
structure Balanced (code : LinkedCode) (heights : Nat → Nat) : Prop where
  start : heights 0 = 0
  inside : ∀ place, code.Reachable place → place < code.size
  enough : ∀ place i, code.Reachable place → code[place]? = some i → i.pops ≤ heights place
  along : ∀ place i next, code.Reachable place → code[place]? = some i → code.Edge place next →
    heights next = heights place - i.pops + i.pushes

variable {code : LinkedCode} {levels : Nat → Option Nat} {heights : Nat → Nat} {place next : Nat}
  {i : Instruction Nat}

theorem mem_successors_iff :
    next ∈ i.successors place ↔ (i.goesOn = true ∧ next = place + 1) ∨ i.jumpTarget? = some next := by
  constructor
  · exact Instruction.mem_successors
  · intro h
    cases i <;>
      simp_all [Instruction.successors, Instruction.isLast, Instruction.goesOn,
        Instruction.jumpTarget?, eq_comm]

/-- The walks of the check go along the edges. -/
theorem edge_iff (here : code[place]? = some i) :
    code.Edge place next ↔ next ∈ i.successors place := by
  rw [mem_successors_iff]
  constructor
  · rintro (⟨here', goesOn⟩ | ⟨here', jumps⟩)
    all_goals obtain rfl := Option.some.inj (here.symm.trans here')
    · exact .inl ⟨goesOn, rfl⟩
    · exact .inr jumps
  · rintro (⟨goesOn, rfl⟩ | jumps)
    · exact .next here goesOn
    · exact .jump here jumps

/-! ## Heights of the places that can be reached -/

/-- What has heights from the start on has one wherever execution may come. -/
theorem Level.exists_height (level : Level code levels) (first : levels 0 = some 0)
    (reachable : code.Reachable place) : ∃ h, levels place = some h := by
  induction reachable with
  | start => exact ⟨0, first⟩
  | step _ edge ih =>
    obtain ⟨h, hh⟩ := ih
    obtain ⟨i, here, -, onward⟩ := level _ _ hh
    exact ⟨_, onward _ ((edge_iff here).mp edge)⟩

theorem Level.balanced (level : Level code levels) (first : levels 0 = some 0) :
    code.Balanced fun place => (levels place).getD 0 := by
  -- at a place that can be reached all that the level says is at hand
  have known : ∀ place, code.Reachable place → ∃ h i, levels place = some h ∧
      code[place]? = some i ∧ i.pops ≤ h ∧
      ∀ next ∈ i.successors place, levels next = some (h - i.pops + i.pushes) := by
    intro place reachable
    obtain ⟨h, hh⟩ := level.exists_height first reachable
    obtain ⟨i, here, enough, onward⟩ := level place h hh
    exact ⟨h, i, hh, here, enough, onward⟩
  constructor
  · simp [first]
  · intro place reachable
    obtain ⟨h, i, -, here, -⟩ := known place reachable
    exact (Array.getElem?_eq_some_iff.mp here).1
  · intro place j reachable here'
    obtain ⟨h, i, hh, here, enough, -⟩ := known place reachable
    obtain rfl := Option.some.inj (here.symm.trans here')
    simpa [hh] using enough
  · intro place j next reachable here' edge
    obtain ⟨h, i, hh, here, -, onward⟩ := known place reachable
    obtain rfl := Option.some.inj (here.symm.trans here')
    simp [hh, onward next ((edge_iff here).mp edge)]

open Classical in
/-- The heights of balanced code, at the places that can be reached only. -/
noncomputable def reachedHeights (code : LinkedCode) (heights : Nat → Nat) (place : Nat) : Option Nat :=
  if code.Reachable place then some (heights place) else none

theorem Balanced.level (balanced : code.Balanced heights) :
    Level code (code.reachedHeights heights) := by
  intro place h hh
  unfold reachedHeights at hh
  split at hh
  next reachable =>
    cases hh
    have inside := balanced.inside place reachable
    have here : code[place]? = some code[place] := Array.getElem?_eq_getElem inside
    refine ⟨_, here, balanced.enough place _ reachable here, ?_⟩
    intro next hn
    have edge := (edge_iff here).mpr hn
    rw [reachedHeights, if_pos (.step reachable edge), balanced.along place _ next reachable here edge]
  next => cases hh

/-- Code has heights at the places of a walk just when it has them at those that can be reached. -/
theorem exists_level_iff :
    (∃ levels, Level code levels ∧ levels 0 = some 0) ↔ ∃ heights, code.Balanced heights := by
  constructor
  · rintro ⟨levels, level, first⟩
    exact ⟨_, level.balanced first⟩
  · rintro ⟨heights, balanced⟩
    refine ⟨_, balanced.level, ?_⟩
    rw [reachedHeights, if_pos .start, balanced.start]

/-! ## The check -/

/-- No walk over the pending places goes on for ever, in whatever order it takes them. The check takes one
of them to its end; and each of them, the check's among them, ends well just when the places that can be
reached are inside the code and have heights that the instructions respect. -/
theorem stack_walk_is_exact (code : LinkedCode) :
    (WellFounded fun after before : Walk code => Walk.Step before after) ∧
      (Walk.start code).Ends code.checkStack ∧
      (code.checkStack = .ok () ↔ ∃ heights, code.Balanced heights) ∧
      ∀ r, (Walk.start code).Ends r → (r = .ok () ↔ ∃ heights, code.Balanced heights) := by
  have exact : ∀ r, (Walk.start code).Ends r → (r = .ok () ↔ ∃ heights, code.Balanced heights) := by
    intro r ends
    rw [ends.eq_ok_iff, exists_level_iff]
  have check := Walk.ends_checkStack code
  exact ⟨Walk.step_wellFounded, check, exact _ check, exact⟩

end LinkedCode

end Covenant
