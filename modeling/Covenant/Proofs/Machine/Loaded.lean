import Covenant.Proofs.Machine.Frame
/-!
Values that a run has loaded from a field of the receiver and still has on its stack.

* `Machine.Loaded`: the value at a height of the stack has been loaded from a field that had not been
  stored before;
* `Machine.Loaded.exists_value`: it is the value that the field had at the start;
* `Machine.Loaded.exists_type`: its type on the stack is that of the field.
-/

namespace Covenant

/-- What lies at the bottom of a list stays there when no more than the top is replaced. -/
theorem suffix_of_drop_eq {α : Type} {bottom old new : List α} {taken put : Nat} (h : bottom <:+ old)
    (spared : taken + bottom.length ≤ old.length) (same : new.drop put = old.drop taken) :
    bottom <:+ new := by
  have kept : bottom <:+ old.drop taken := by
    apply List.suffix_of_suffix_length_le h (List.drop_suffix taken old)
    rw [List.length_drop]
    omega
  rw [← same] at kept
  exact kept.trans (List.drop_suffix put new)

namespace Machine

/-- The value at a height of the stack has been loaded from a field of the receiver that no instruction had
stored before. It has stayed there since, or it is a copy of such a value. -/
inductive Loaded (code : LinkedCode) (s : Surroundings) (start : Machine) (field : String) :
    Machine → Nat → Prop
  | load {n : Nat} {a a' : Machine} (reached : Reaches code s start n a)
      (kept : ∀ k b, k < n → Reaches code s start k b → code[b.place]? ≠ some (.storeThis field))
      (here : code[a.place]? = some (.loadThis field)) (hs : step code s a = some (.ok none, a')) :
      Loaded code s start field a' a.stack.length
  | stay {a a' : Machine} {height : Nat} {i : Instruction Nat} (held : Loaded code s start field a height)
      (here : code[a.place]? = some i) (above : i.pops + height < a.stack.length)
      (hs : step code s a = some (.ok none, a')) : Loaded code s start field a' height
  | copy {a a' : Machine} {height height' : Nat} (held : Loaded code s start field a height)
      (top : a.stack.length = height + 1) (here : code[a.place]? = some .dup)
      (hs : step code s a = some (.ok none, a')) (either : height' = height ∨ height' = height + 1) :
      Loaded code s start field a' height'

namespace Loaded

variable {code : LinkedCode} {s : Surroundings} {start m : Machine} {field : String} {height : Nat}

/-- The value is the one that the field had at the start. -/
theorem exists_value (known : code.Known) (h : Loaded code s start field m height) :
    ∃ d below, start.receiver.member field = .ok d ∧ below.length = height ∧ d :: below <:+ m.stack := by
  induction h with
  | @load n a a' reached kept here hs =>
    have made := hs.symm.trans (step_of_instruction here)
    rw [execute_loadThis] at made
    dsimp only at made
    rw [reached.member known kept] at made
    cases held : start.receiver.member field with
    | error why =>
      rw [held] at made
      cases made
    | ok d =>
      rw [held] at made
      cases made
      exact ⟨d, a.stack, rfl, rfl, List.suffix_refl _⟩
  | @stay a a' height i _ here above hs ih =>
    obtain ⟨d, below, held, rfl, bottom⟩ := ih
    obtain ⟨j, here', made⟩ := instruction_of_step hs
    obtain rfl : i = j := Option.some.inj (here.symm.trans here')
    have meets := execute_meets s (m := { a with steps := a.steps + 1, place := a.place + 1 })
      (known _ i here) (show i.pops ≤ a.stack.length by omega)
    rw [made] at meets
    exact ⟨d, below, held, rfl, suffix_of_drop_eq bottom (by rw [List.length_cons]; omega) meets.below⟩
  | @copy a a' height height' _ top here hs either ih =>
    obtain ⟨d, below, held, rfl, bottom⟩ := ih
    have stack : d :: below = a.stack := bottom.eq_of_length top.symm
    obtain ⟨stack', locals, receiver, place, steps, computed⟩ := a
    obtain rfl : d :: below = stack' := stack
    have made := hs.symm.trans (step_of_instruction here)
    rw [execute_dup] at made
    cases made
    rcases either with rfl | rfl
    · exact ⟨d, below, held, rfl, List.suffix_cons d _⟩
    · exact ⟨d, d :: below, held, rfl, List.suffix_refl _⟩

/-- The type of the value is that of the field. -/
theorem exists_type {l : Layout} {result : Option Ty} {abi : Abi} {header : Header}
    {labels : List (String × Nat)} {levels : Nat → Option (List Ty)}
    (typed : Code.LevelsOf (Instruction.Typed l result) abi header labels code levels)
    (level : levels start.place = some []) (empty : start.stack = [])
    (h : Loaded code s start field m height) : ∃ type types below, l.this.field? field = some type ∧
      levels m.place = some types ∧ types.length = m.stack.length ∧ below.length = height ∧
      type :: below <:+ types := by
  induction h with
  | @load n a a' reached _ here hs =>
    obtain ⟨types, level, count⟩ := typed.reaches level (by rw [empty]; rfl) reached
    obtain ⟨i, j, made, linked, here', makes, next, count'⟩ := typed.next level count hs
    obtain rfl := Option.some.inj (here.symm.trans here')
    obtain ⟨rfl, -⟩ := Code.eq_of_linkInstruction linked
    cases makes with
    | loadThis held => exact ⟨_, _, types, held, next, count', count, List.suffix_refl _⟩
  | @stay a a' height i _ here above hs ih =>
    obtain ⟨type, types, below, held, level, count, rfl, bottom⟩ := ih
    obtain ⟨i', j, made, linked, here', makes, next, count'⟩ := typed.next level count hs
    obtain rfl := Option.some.inj (here.symm.trans here')
    have shape := Code.linkInstruction_shape linked
    have spared : i'.pops + (type :: below).length ≤ types.length := by
      rw [List.length_cons, ← shape.pops]
      omega
    exact ⟨type, made, below, held, next, count', rfl, suffix_of_drop_eq bottom spared makes.below⟩
  | @copy a a' height height' _ top here hs either ih =>
    obtain ⟨type, types, below, held, level, count, rfl, bottom⟩ := ih
    obtain rfl : type :: below = types := bottom.eq_of_length (count.trans top).symm
    obtain ⟨i, j, made, linked, here', makes, next, count'⟩ := typed.next level count hs
    obtain rfl := Option.some.inj (here.symm.trans here')
    obtain rfl : i = .dup := Code.eq_of_linkInstruction linked
    cases makes with
    | dup =>
      rcases either with rfl | rfl
      · exact ⟨type, _, below, held, next, count', rfl, List.suffix_cons type _⟩
      · exact ⟨type, _, type :: below, held, next, count', rfl, List.suffix_refl _⟩

end Loaded

end Machine

end Covenant
