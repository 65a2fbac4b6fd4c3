import Covenant.Proofs.Code.Lines
import Covenant.Proofs.Machine.Levels
/-!
Runs that leave the function.

* `Machine.Departs`: the run from a state ends by leaving the function, and none of its steps fails;
* `LinkedCode.Level.exists_reaches_of_departs`: if the code before a place neither leaves the function nor
  jumps past that place, such a run has come to it.
-/

namespace Covenant

def Instruction.departs {Target : Type} : Instruction Target → Bool
  | .leave | .leaveValue => true
  | _ => false

theorem Code.departs_of_linkInstruction {abi : Abi} {header : Header} {labels : List (String × Nat)}
    {i : Instruction String} {j : Instruction Nat} (h : linkInstruction abi header labels i = .ok j) :
    j.departs = i.departs := by
  cases i with
  | jump _ | jumpIfFalse _ | jumpIfTrue _ | push _ _ | loadThis _ | storeThis _ | loadLocal _
  | storeLocal _ =>
    obtain ⟨_, -, h⟩ := bind_eq_ok.mp h
    obtain rfl := pure_eq_ok.mp h
    rfl
  | deref _ | loadContext _ =>
    rw [linkInstruction] at h
    split at h <;> cases h
    rfl
  | _ =>
    cases h
    rfl

namespace Machine

variable {code : LinkedCode} {s : Surroundings} {m m' : Machine}

def Departs (code : LinkedCode) (s : Surroundings) (m : Machine) : Prop :=
  ∃ n a d a', Reaches code s m n a ∧ step code s a = some (.ok (some d), a')

theorem departs_of_run {limit : Nat} {departure : Departure} (h : run code s limit m = ⟨.ok departure, m'⟩) :
    Departs code s m := by
  obtain ⟨n, a, reached, leaves⟩ := exists_step_of_departs h
  exact ⟨n, a, departure, m', reached, leaves⟩

/-- The first step of such a run leaves the function, or the run goes on to leave it. -/
theorem Departs.exists_step (h : Departs code s m) : (∃ d m', step code s m = some (.ok (some d), m')) ∨
    ∃ m', step code s m = some (.ok none, m') ∧ Departs code s m' := by
  obtain ⟨n, a, d, a', reached, leaves⟩ := h
  cases reached with
  | refl => exact .inl ⟨d, a', leaves⟩
  | next hs reached => exact .inr ⟨_, hs, _, a, d, a', reached, leaves⟩

theorem Departs.next (h : Departs code s m) (hs : step code s m = some (.ok none, m')) :
    Departs code s m' := by
  rcases h.exists_step with ⟨d, a, leaves⟩ | ⟨a, hs', departs⟩
  · cases hs.symm.trans leaves
  · cases hs.symm.trans hs'
    exact departs

/-- Where an instruction only computes a value, the computation does not fail. -/
theorem Departs.of_answer (h : Departs code s m) {r : Except Failure Datum}
    (hs : step code s m = some (answer r m')) :
    ∃ d, r = .ok d ∧ step code s m = some (.ok none, { m' with stack := d :: m'.stack }) ∧
      Departs code s { m' with stack := d :: m'.stack } := by
  cases r with
  | ok d => exact ⟨d, rfl, hs, h.next hs⟩
  | error f =>
    rcases h.exists_step with ⟨_, _, hs'⟩ | ⟨_, hs', -⟩ <;> cases hs.symm.trans hs'

end Machine

namespace LinkedCode.Level

open Machine

variable {code : LinkedCode} {heights : Nat → Option Nat} {s : Surroundings} {m : Machine} {stop : Nat}

/-- Only an instruction that leaves the function makes a run end so. -/
theorem departs_of_step (level : Level code heights) (known : code.Known)
    (height : heights m.place = some m.stack.length) {d : Departure} {m' : Machine}
    (hs : step code s m = some (.ok (some d), m')) : ∃ i, code[m.place]? = some i ∧ i.departs = true := by
  obtain ⟨i, hi, meets⟩ := level.meets known height hs
  obtain ⟨i', hi', enough, -⟩ := level _ _ height
  cases hi.symm.trans hi'
  refine ⟨i, hi, ?_⟩
  have last : i.isLast = true := meets
  obtain ⟨j, hj, executed⟩ := instruction_of_step hs
  cases hi.symm.trans hj
  cases i with
  | leave | leaveValue => rfl
  | abortUnauthorized => cases executed
  | abort =>
    obtain ⟨stack, locals, receiver, place, steps, computed⟩ := m
    obtain ⟨message, rest, rfl⟩ := exists_cons enough
    cases executed
  | _ => cases last

/-- A run that leaves the function comes to a place if the code before it neither leaves the function nor
jumps past that place. -/
theorem exists_reaches_of_departs (level : Level code heights) (known : code.Known)
    (inside : ∀ {place i}, place < stop → code[place]? = some i → i.departs = false ∧
      ∀ target, i.jumpTarget? = some target → target ≤ stop)
    (height : heights m.place = some m.stack.length) (before : m.place ≤ stop)
    (departs : Departs code s m) :
    ∃ n m', Reaches code s m n m' ∧ m'.place = stop ∧ Departs code s m' := by
  obtain ⟨n, a, d, a', reached, leaves⟩ := departs
  induction reached with
  | refl m =>
    rcases Nat.lt_or_eq_of_le before with early | rfl
    · obtain ⟨i, hi, departs⟩ := level.departs_of_step known height leaves
      rw [(inside early hi).1] at departs
      cases departs
    · exact ⟨0, m, .refl m, rfl, 0, m, d, a', .refl m, leaves⟩
  | @next m m₁ a n hs reached ih =>
    rcases Nat.lt_or_eq_of_le before with early | rfl
    · obtain ⟨i, hi, moves⟩ := level.meets known height hs
      have onward : m₁.place ≤ stop := by
        rcases Instruction.mem_successors (moves.next m.place rfl) with ⟨-, next⟩ | jumps
        · exact next ▸ early
        · exact (inside early hi).2 _ jumps
      obtain ⟨k, m', reached', there, departs⟩ :=
        ih (level.height_of_moves height hi moves) onward leaves
      exact ⟨k + 1, m', .next hs reached', there, departs⟩
    · exact ⟨0, m, .refl m, rfl, n + 1, a, d, a', .next hs reached, leaves⟩

end LinkedCode.Level

end Covenant
