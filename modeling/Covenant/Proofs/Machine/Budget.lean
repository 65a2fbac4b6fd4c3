import Covenant.Machine.Unchecked
import Covenant.Proofs.Machine.Places
import Covenant.Proofs.Machine.Steps
/-!
The budget of steps of a run.

* `Machine.steps_of_step`: each step of a run counts once, as no instruction, checked or not, touches the
  count;
* `Machine.ExactBudget`: the budget of a run decides only where it is cut off;
* `Machine.exactBudget_runFrom`: so it is with the loop of the machine, from any state of it;
* `step_budget_is_exact`: so it is with all runs, those of unchecked code too.
-/

namespace Covenant

namespace Machine

variable {code : LinkedCode} {s : Surroundings}

/-- Each step counts once, also the last one. -/
theorem steps_of_step {m m' : Machine} {r : Except Failure (Option Departure)}
    (hs : step code s m = some (r, m')) : m'.steps = m.steps + 1 := by
  obtain ⟨i, -, made⟩ := instruction_of_step hs
  have same := steps_execute s i { m with steps := m.steps + 1, place := m.place + 1 }
  rw [made] at same
  exact same

/-! ## Budgets -/

/-- With no budget left a run is cut off at its next instruction. -/
theorem runFrom_zero {m : Machine} {i : Instruction Nat} (here : code[m.place]? = some i) (limit : Datum) :
    runFrom code s limit 0 m = ⟨.error (.stepLimit limit), { m with steps := m.steps + 1 }⟩ := by
  rw [runFrom, here]

/-- A run past the end of the code counts no step. -/
theorem runFrom_past {m : Machine} (past : code[m.place]? = none) (limit : Datum) (budget : Nat) :
    runFrom code s limit budget m = ⟨.error .pastEnd, m⟩ := by
  cases budget <;> rw [runFrom, past]

/-- A run counts one step more than its budget at most. -/
theorem steps_runFrom_le (limit : Datum) (budget : Nat) (m : Machine) :
    (runFrom code s limit budget m).machine.steps ≤ m.steps + (budget + 1) := by
  induction budget generalizing m with
  | zero =>
    cases hi : code[m.place]? with
    | none =>
      rw [runFrom_past hi]
      exact Nat.le_succ _
    | some i =>
      simp [runFrom_zero hi]
  | succ budget ih =>
    cases hi : code[m.place]? with
    | none =>
      rw [runFrom_past hi]
      exact Nat.le_add_right _ _
    | some i =>
      obtain ⟨⟨r, m'⟩, hs⟩ : ∃ x, step code s m = some x := ⟨_, step_of_instruction hi⟩
      have counted := steps_of_step hs
      have one : m'.steps ≤ m.steps + (budget + 1 + 1) := by omega
      rcases r with f | (_ | d)
      · rw [runFrom_fails hs]
        exact one
      · rw [runFrom_of_step hs]
        have others := ih m'
        omega
      · rw [runFrom_departs hs]
        exact one

/-- A run from a state takes a number of steps to its end: with each budget of as many it comes to this
end, and with each smaller one it is cut off. -/
structure Takes (code : LinkedCode) (s : Surroundings) (m : Machine) (k : Nat) (e : Ended) : Prop where
  steps : e.machine.steps = m.steps + k
  ends : ∀ limit budget, k ≤ budget → runFrom code s limit budget m = e
  cutOff : ∀ limit budget, budget < k →
    (runFrom code s limit budget m).outcome = .error (.stepLimit limit)

namespace Takes

variable {m m' : Machine} {e : Ended} {k : Nat}

theorem past (h : code[m.place]? = none) : Takes code s m 0 ⟨.error .pastEnd, m⟩ :=
  ⟨rfl, fun limit budget _ => runFrom_past h limit budget, fun _ _ few => absurd few (Nat.not_lt_zero _)⟩

/-- The last step. -/
theorem last {r : Except Failure (Option Departure)} (hs : step code s m = some (r, m'))
    {outcome : Except Failure Departure}
    (ends : ∀ limit budget, runFrom code s limit (budget + 1) m = ⟨outcome, m'⟩) :
    Takes code s m 1 ⟨outcome, m'⟩ := by
  obtain ⟨i, hi, -⟩ := instruction_of_step hs
  refine ⟨steps_of_step hs, fun limit budget enough => ?_, fun limit budget few => ?_⟩
  · obtain ⟨more, rfl⟩ := Nat.exists_eq_add_of_le' enough
    exact ends limit more
  · rw [Nat.lt_one_iff.mp few, runFrom_zero hi]

/-- One step more. -/
theorem next (hs : step code s m = some (.ok none, m')) (h : Takes code s m' k e) :
    Takes code s m (k + 1) e := by
  obtain ⟨i, hi, -⟩ := instruction_of_step hs
  refine ⟨?_, fun limit budget enough => ?_, fun limit budget few => ?_⟩
  · rw [h.steps, steps_of_step hs, Nat.add_right_comm, Nat.add_assoc]
  · obtain ⟨more, rfl⟩ := Nat.exists_eq_add_of_le' enough
    rw [← Nat.add_assoc, runFrom_of_step hs]
    exact h.ends limit _ (Nat.le_add_left k more)
  · cases budget with
    | zero => rw [runFrom_zero hi]
    | succ budget =>
      rw [runFrom_of_step hs]
      exact h.cutOff limit budget (Nat.lt_of_succ_lt_succ few)

end Takes

def Ended.CutOff (e : Ended) : Prop := ∃ limit, e.outcome = .error (.stepLimit limit)

/-- A run that is not cut off takes no more steps than its budget. -/
theorem exists_takes {limit : Datum} {budget : Nat} {m : Machine}
    (whole : ¬ (runFrom code s limit budget m).CutOff) :
    ∃ k ≤ budget, Takes code s m k (runFrom code s limit budget m) := by
  induction budget generalizing m with
  | zero =>
    cases hi : code[m.place]? with
    | none =>
      rw [runFrom_past hi]
      exact ⟨0, Nat.le_refl 0, .past hi⟩
    | some i =>
      rw [runFrom_zero hi] at whole
      exact absurd ⟨limit, rfl⟩ whole
  | succ budget ih =>
    cases hi : code[m.place]? with
    | none =>
      rw [runFrom_past hi]
      exact ⟨0, Nat.zero_le _, .past hi⟩
    | some i =>
      obtain ⟨⟨r, m'⟩, hs⟩ : ∃ x, step code s m = some x := ⟨_, step_of_instruction hi⟩
      rcases r with f | (_ | d)
      · rw [runFrom_fails hs]
        exact ⟨1, Nat.le_add_left 1 budget, .last hs (runFrom_fails hs)⟩
      · rw [runFrom_of_step hs] at whole ⊢
        obtain ⟨k, few, takes⟩ := ih whole
        exact ⟨k + 1, Nat.succ_le_succ few, takes.next hs⟩
      · rw [runFrom_departs hs]
        exact ⟨1, Nat.le_add_left 1 budget, .last hs (runFrom_departs hs)⟩

/-- What a budget decides of a run that starts with a number of steps counted. -/
structure ExactBudget (start : Nat) (run : Nat → Ended) : Prop where
  /-- with each budget the run ends, after one step more than that at most -/
  bounded : ∀ n, (run n).machine.steps ≤ start + (n + 1)
  /-- a run that is not cut off needs just the steps that it has counted: with each budget of as many it ends
  in the same way, and with each smaller one it is cut off -/
  settled : ∀ n, ¬ (run n).CutOff → ∃ k ≤ n, (run n).machine.steps = start + k ∧
    (∀ m, k ≤ m → run m = run n) ∧ ∀ m < k, (run m).outcome = .error (.stepLimit (.integer m))

/-- The loop of the machine, with its budget as the limit. -/
theorem exactBudget_runFrom (code : LinkedCode) (s : Surroundings) (m : Machine) :
    ExactBudget m.steps fun n => runFrom code s (.integer n) n m where
  bounded n := steps_runFrom_le _ n m
  settled n whole := by
    obtain ⟨k, few, takes⟩ := exists_takes whole
    exact ⟨k, few, takes.steps, fun m => takes.ends _ m, fun m => takes.cutOff _ m⟩

/-- Writing the names of members changes neither how a run has ended nor what it has counted. -/
theorem ExactBudget.written {start : Nat} {run : Nat → Ended} (h : ExactBudget start run) :
    ExactBudget start fun n => (run n).written where
  bounded := h.bounded
  settled n whole := by
    have fails : ∀ {e : Ended} {f : Failure}, e.outcome = .error f → e.written.outcome = .error f := by
      intro e f failed
      rw [Ended.written, failed]
      rfl
    obtain ⟨k, few, steps, same, cutOff⟩ := h.settled n fun ⟨limit, failed⟩ => whole ⟨limit, fails failed⟩
    exact ⟨k, few, steps, fun m enough => congrArg Ended.written (same m enough),
      fun m fewer => fails (cutOff m fewer)⟩

end Machine

open Machine

/-- The budget of a run decides only where it is cut off: whatever the code and the state that it starts
with, a run that is not cut off needs just the steps that it counts, ends in the same way with each budget
of as many and is cut off with each smaller one; and it never counts more than one step beyond its budget.
So it is also with code that no linker has checked. -/
theorem step_budget_is_exact :
    (∀ (code : LinkedCode) (s : Surroundings) (m : Machine),
      ExactBudget m.steps fun n => Machine.run code s n m) ∧
    ∀ (lines : List (Datum × Datum)) (s : Surroundings) (receiver : Datum) (locals : List Datum),
      ExactBudget 0 fun n => runUnchecked lines s (.integer n) receiver locals := by
  refine ⟨exactBudget_runFrom, fun lines s receiver locals => ?_⟩
  -- a limit that is an integer is compared with steps, and does not change the code
  have number : ∀ n : Nat, (Datum.integer n).number? = some (.whole n) := fun _ => rfl
  simp only [runUnchecked, number, Option.map_some, Option.getD_some, stepsWithin, Int.toNat_natCast]
  exact (exactBudget_runFrom _ s
    { start receiver locals with place := Instruction.firstPlace + lines.length }).written

/-- A loop that counts the first local down to zero, and then leaves. -/
def countingDown : LinkedCode :=
  #[.loadLocal 0, .jumpIfFalse 7, .loadLocal 0, .push (.primitive .u32) (.integer 1), .arith .sub .u32,
    .storeLocal 0, .jump 0, .leave]

/-- From two on the loop takes seventeen steps. -/
theorem countingDown_needs_seventeen : ∃ e : Ended, ¬ e.CutOff ∧ e.machine.steps = 17 ∧
    (∀ n, 17 ≤ n → Machine.run countingDown ⟨none, []⟩ n (start .null [.integer 2]) = e) ∧
    ∀ n < 17, (Machine.run countingDown ⟨none, []⟩ n (start .null [.integer 2])).outcome =
      .error (.stepLimit (.integer n)) := by
  have left : (Machine.run countingDown ⟨none, []⟩ 100 (start .null [.integer 2])).outcome.isOk = true := by
    decide +kernel
  have counted : (Machine.run countingDown ⟨none, []⟩ 100 (start .null [.integer 2])).machine.steps = 17 := by
    decide +kernel
  have settled :=
    (step_budget_is_exact.1 countingDown ⟨none, []⟩ (start .null [.integer 2])).settled 100
  generalize Machine.run countingDown ⟨none, []⟩ 100 (start .null [.integer 2]) = e at left counted settled
  have whole : ¬ e.CutOff := by
    rintro ⟨limit, failed⟩
    rw [failed] at left
    cases left
  obtain ⟨k, -, steps, same, cutOff⟩ := settled whole
  obtain rfl : k = 17 := by
    rw [counted] at steps
    exact ((Nat.zero_add k).symm.trans steps.symm)
  exact ⟨e, whole, counted, same, cutOff⟩

end Covenant
