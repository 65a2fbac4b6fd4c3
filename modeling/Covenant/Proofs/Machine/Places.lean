import Covenant.Proofs.Machine.Effect
/-!
What an instruction does, it does at any place and whatever the count of steps:

* `Instruction.retarget`: the instruction with another target;
* `Machine.carries_execute`: when the targets of jumps move as the places do, an instruction does to the
  moved state what it does to the state itself.
-/

namespace Covenant

namespace Instruction

variable {S T U : Type}

def retarget (f : S → T) : Instruction S → Instruction T
  | .jump target => .jump (f target)
  | .jumpIfFalse target => .jumpIfFalse (f target)
  | .jumpIfTrue target => .jumpIfTrue (f target)
  | .push kind value => .push kind value
  | .loadThis field => .loadThis field
  | .storeThis field => .storeThis field
  | .loadLocal slot => .loadLocal slot
  | .storeLocal slot => .storeLocal slot
  | .loadContext name => .loadContext name
  | .getField name => .getField name
  | .setField name => .setField name
  | .deref contract => .deref contract
  | .arrayNew count => .arrayNew count
  | .arrayLength => .arrayLength
  | .arrayGet => .arrayGet
  | .arraySet => .arraySet
  | .arrayPush => .arrayPush
  | .arrayIndexOf => .arrayIndexOf
  | .arrayIncludes => .arrayIncludes
  | .textLength => .textLength
  | .concat => .concat
  | .compare comparison => .compare comparison
  | .not => .not
  | .truthy => .truthy
  | .keyMatch => .keyMatch
  | .dup => .dup
  | .drop => .drop
  | .abort => .abort
  | .abortUnauthorized => .abortUnauthorized
  | .leave => .leave
  | .leaveValue => .leaveValue
  | .arith op type => .arith op type
  | .loose word operand => .loose word operand

@[simp] theorem retarget_id (i : Instruction T) : i.retarget id = i := by
  cases i <;> rfl

@[simp] theorem retarget_retarget (f : S → T) (g : T → U) (i : Instruction S) :
    (i.retarget f).retarget g = i.retarget (g ∘ f) := by
  cases i <;> rfl

end Instruction

namespace Machine

/-- The state at another place, and with another count of steps. -/
def moved (f g : Nat → Nat) (m : Machine) : Machine :=
  { m with place := f m.place, steps := g m.steps }

/-- One computation does to a state what another one does to the moved state. -/
def Carries {α : Type} (f g : Nat → Nat) (x y : Execution α) : Prop :=
  ∀ m : Machine, y.run (m.moved f g) = ((x.run m).1, (x.run m).2.moved f g)

namespace Carries

variable {α β : Type} {f g : Nat → Nat}

theorem pure (a : α) : Carries f g (Pure.pure a) (Pure.pure a) := fun _ => rfl

theorem throw (e : Failure) : Carries f g (MonadExcept.throw e : Execution α) (MonadExcept.throw e) :=
  fun _ => rfl

theorem bind {x y : Execution α} {h k : α → Execution β} (hx : Carries f g x y)
    (hh : ∀ a, Carries f g (h a) (k a)) : Carries f g (x >>= h) (y >>= k) := by
  intro m
  rw [run_bind, run_bind, hx m]
  rcases x.run m with ⟨e | a, m'⟩
  · rfl
  · exact hh a m'

/-- Reading the state and going on from it. -/
theorem inspect {h : Machine → Execution α}
    (hh : ∀ m, (h (m.moved f g)).run (m.moved f g) = (((h m).run m).1, ((h m).run m).2.moved f g)) :
    Carries f g (get >>= h) (get >>= h) := hh

theorem pop : Carries f g pop pop := by
  rintro ⟨st, l, r, p, n, c⟩
  cases st <;> rfl

theorem push (d : Datum) : Carries f g (push d) (push d) := fun _ => rfl

theorem goto (place : Nat) : Carries f g (goto place) (goto (f place)) := fun _ => rfl

theorem nextOrigin : Carries f g nextOrigin nextOrigin := fun _ => rfl

theorem require (x : Except Misuse α) : Carries f g (require x) (require x) := by
  cases x <;> exact fun _ => rfl

theorem attempt (x : Except Failure α) : Carries f g (attempt x) (attempt x) := by
  cases x <;> exact fun _ => rfl

theorem popStored (place : Place) : Carries f g (popStored place) (popStored place) := by
  refine .bind .pop fun d => ?_
  cases d <;> first | exact .pure _ | exact .throw _

theorem lookUp (s : Surroundings) (contract : String) (d : Datum) :
    Carries f g (lookUp s contract d) (lookUp s contract d) := by
  rw [lookUp_eq_attempt]
  exact .attempt _

theorem lookUpNothing (contract reference : Datum) :
    Carries f g (lookUpNothing contract reference) (lookUpNothing contract reference) := by
  unfold Machine.lookUpNothing
  split <;> exact .throw _

theorem compared (c : Comparison) (a b : Datum) : Carries f g (compared c a b) (compared c a b) := by
  rw [compared_eq_require]
  exact .require _

/-- A computation whose value is put on the stack. -/
theorem pushed {x : Execution α} (hx : Carries f g x x) (v : α → Datum) :
    Carries f g (do Machine.push (v (← x))) (do Machine.push (v (← x))) := .bind hx fun _ => .push _

/-- The same as an instruction. -/
theorem pushing {x : Execution α} (hx : Carries f g x x) (v : α → Datum) :
    Carries f g (do Machine.push (v (← x)); return (none : Option Departure))
      (do Machine.push (v (← x)); return none) :=
  .bind hx fun _ => .bind (.push _) fun _ => .pure _

end Carries

variable (f g : Nat → Nat)

/-- Operations of unchecked code do not go anywhere. -/
theorem carries_executeWord (word : String) (operand : Datum) :
    Carries f g (executeWord word operand) (executeWord word operand) := by
  unfold executeWord
  split
  · exact .inspect fun m => Carries.pushed (.require (m.receiver.selected operand)) id m
  · refine .bind (.popStored _) fun d => .inspect fun m => ?_
    change (do set { m.moved f g with receiver := ← require (m.receiver.withSelected operand d) } :
      Execution Unit).run _ = _
    cases m.receiver.withSelected operand d <;> rfl
  · exact .throw _
  · exact .throw _
  · exact .throw _
  · exact .bind .pop fun _ => .throw _
  · exact .bind .pop fun d => .pushed (.require _) id
  · exact .bind (.popStored _) fun v => .bind .pop fun d => .bind (.require _) fun fields =>
      .pushed (.require _) id
  · exact .bind .pop fun r => .lookUpNothing operand r
  · exact .bind .pop fun i => .bind .pop fun d => .pushed (.attempt _) id
  · exact .bind (.popStored _) fun v => .bind .pop fun i => .bind .pop fun d => .pushed (.attempt _) id
  · exact .bind (.popStored _) fun v => .bind .pop fun d => .pushed (.require _) id
  · exact .bind .pop fun t => .bind .pop fun d => .pushed (.require _) id
  · exact .bind .pop fun t => .bind .pop fun d => .pushed (.require _) _
  · exact .bind .pop fun d => .throw _
  · refine .bind .pop fun d => ?_
    split
    · exact .throw _
    · exact .pure _
  · refine .bind .pop fun d => ?_
    split
    · exact .throw _
    · exact .pure _
  · exact .throw _

theorem carries_executeLoose (word operand : Datum) :
    Carries f g (executeLoose word operand) (executeLoose word operand) := by
  unfold executeLoose
  split
  · exact carries_executeWord f g _ operand
  · exact .throw _
  · exact .throw _

/-- With its target moved as places are, an instruction does the same to a moved state. -/
theorem carries_execute (s : Surroundings) (i : Instruction Nat) :
    Carries f g (execute s i) (execute s (i.retarget f)) := by
  cases i with
  | push kind d => exact .bind (.push d) fun _ => .pure _
  | loadThis name => exact .inspect fun m => Carries.pushing (.require (m.receiver.member name)) id m
  | storeThis name =>
    refine .bind (.popStored _) fun d => .inspect fun m => ?_
    obtain ⟨st, l, r, p, n, c⟩ := m
    cases r <;> rfl
  | loadLocal slot =>
    intro m
    rw [Instruction.retarget, execute_loadLocal, execute_loadLocal]
    change answer (slotValue m.locals slot) (m.moved f g) = _
    cases slotValue m.locals slot <;> rfl
  | storeLocal slot =>
    rintro ⟨st, l, r, p, n, c⟩
    cases st with
    | nil => rfl
    | cons d st =>
      rw [Instruction.retarget, moved, execute_storeLocal, execute_storeLocal]
      split <;> rfl
  | loadContext name => exact .bind (.push _) fun _ => .pure _
  | getField name => exact .bind .pop fun d => .pushing (.require _) id
  | setField name => exact .bind (.popStored _) fun v => .bind .pop fun d => .pushing (.require _) id
  | deref contract => exact .bind .pop fun d => .pushing (.lookUp s contract d) id
  | arrayNew count => exact fun _ => rfl
  | arrayLength | textLength => exact .bind .pop fun d => .pushing (.require _) _
  | arrayGet => exact .bind .pop fun i => .bind .pop fun d => .pushing (.attempt _) id
  | arraySet =>
    exact .bind (.popStored _) fun v => .bind .pop fun i => .bind .pop fun d => .pushing (.attempt _) id
  | arrayPush => exact .bind (.popStored _) fun v => .bind .pop fun d => .pushing (.require _) id
  | arrayIndexOf => exact .bind .pop fun t => .bind .pop fun d => .pushing (.require _) id
  | arrayIncludes => exact .bind .pop fun t => .bind .pop fun d => .pushing (.require _) _
  | concat =>
    exact .bind .pop fun b => .bind .pop fun a => .bind .nextOrigin fun o => .pushing (.require _) id
  | compare k => exact .bind .pop fun b => .bind .pop fun a => .pushing (.compared k a b) _
  | keyMatch => exact .bind .pop fun b => .bind .pop fun a => .bind (.push _) fun _ => .pure _
  | not | truthy => exact .bind .pop fun d => .bind (.push _) fun _ => .pure _
  | jump target => exact .bind (.goto target) fun _ => .pure _
  | jumpIfFalse target | jumpIfTrue target =>
    refine .bind .pop fun d => ?_
    split
    · exact .bind (.goto target) fun _ => .pure _
    · exact .pure _
  | dup => exact .bind .pop fun d => .bind (.push d) fun _ => .bind (.push d) fun _ => .pure _
  | drop => exact .bind .pop fun d => .pure _
  | abort => exact .bind .pop fun d => .throw _
  | abortUnauthorized => exact .throw _
  | leave => exact .pure _
  | leaveValue => exact .bind .pop fun d => .pure _
  | arith op type =>
    cases op with
    | neg => exact .bind .pop fun a => .bind .nextOrigin fun o => .pushing (.attempt _) id
    | _ =>
      exact .bind .pop fun b => .bind .pop fun a => .bind .nextOrigin fun o => .pushing (.attempt _) id
  | loose word operand => exact .bind (carries_executeLoose f g word operand) fun _ => .pure _

/-- No instruction touches the count of steps. -/
theorem steps_execute (s : Surroundings) (i : Instruction Nat) (m : Machine) :
    ((execute s i).run m).2.steps = m.steps := by
  have same := carries_execute id (fun _ => m.steps) s i m
  rw [Instruction.retarget_id] at same
  exact congrArg (·.2.steps) same

end Machine

end Covenant
