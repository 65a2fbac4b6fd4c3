import Covenant.Proofs.Machine.Agreement
import Covenant.Proofs.Machine.Levels
/-!
The fields of the receiver that a run leaves alone.

* `Machine.member_execute`: an instruction leaves a field alone, unless it is the one that stores it;
* `Machine.Reaches.member`: so a run leaves a field alone that no instruction on its way stores.
-/

namespace Covenant

/-- A field is the same after another one has been set. -/
theorem Datum.member_setField_of_ne {name other : String} (ne : name ≠ other) (value : Datum)
    (fields : Fields) :
    (Datum.record (setField other value fields)).member name = (Datum.record fields).member name := by
  rw [Datum.member, Datum.member, lookup_setField, if_neg ne]

namespace Machine

/-- Only an instruction that stores a field changes the receiver. -/
theorem receiver_execute (s : Surroundings) {i : Instruction Nat} (known : i.isKnown = true)
    (store : ∀ name, i ≠ .storeThis name) (m : Machine) :
    ((execute s i).run m).2.receiver = m.receiver := by
  by_cases load : ∃ name, i = .loadThis name
  · obtain ⟨name, rfl⟩ := load
    rw [execute_loadThis]
    cases Failure.lift (m.receiver.member name) <;> rfl
  · exact (blind_execute s known (fun name same => load ⟨name, same⟩) store).receiver m

/-- An instruction leaves a field alone, unless it is the one that stores it. -/
theorem member_execute (s : Surroundings) {i : Instruction Nat} (known : i.isKnown = true) {name : String}
    (kept : i ≠ .storeThis name) (m : Machine) :
    ((execute s i).run m).2.receiver.member name = m.receiver.member name := by
  by_cases store : ∃ other, i = .storeThis other
  · obtain ⟨other, rfl⟩ := store
    have ne : name ≠ other := fun same => kept (same ▸ rfl)
    obtain ⟨st, l, receiver, p, n, c⟩ := m
    cases st with
    | nil => rfl
    | cons d st =>
      rw [execute_storeThis]
      unfold storing
      -- an absent key is refused, and there is nothing to set without a record
      split
      · rfl
      · cases receiver with
        | record fields => exact Datum.member_setField_of_ne ne d fields
        | _ => rfl
  · rw [receiver_execute s known (fun other same => store ⟨other, same⟩)]

variable {code : LinkedCode} {s : Surroundings} {m m' : Machine} {name : String}

theorem member_of_step (known : code.Known) (kept : code[m.place]? ≠ some (.storeThis name))
    {r : Except Failure (Option Departure)} (hs : step code s m = some (r, m')) :
    m'.receiver.member name = m.receiver.member name := by
  obtain ⟨i, hi, made⟩ := instruction_of_step hs
  have same := member_execute s (known _ i hi) (fun store => kept (store ▸ hi))
    { m with steps := m.steps + 1, place := m.place + 1 }
  rw [made] at same
  exact same

/-- A run leaves a field alone that no instruction on its way stores. -/
theorem Reaches.member (known : code.Known) {n : Nat} (h : Reaches code s m n m')
    (kept : ∀ k a, k < n → Reaches code s m k a → code[a.place]? ≠ some (.storeThis name)) :
    m'.receiver.member name = m.receiver.member name := by
  induction h with
  | refl => rfl
  | next hs _ ih =>
    have later := ih fun k a early reached => kept (k + 1) a (by omega) (.next hs reached)
    rw [later]
    exact member_of_step known (kept 0 _ (by omega) (.refl _)) hs

end Machine

end Covenant
