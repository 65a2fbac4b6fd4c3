import Covenant.Proofs.Run.Conformance
import Covenant.Proofs.Run.Remarking
import Covenant.Proofs.Term.Renaming
/-!
The marks in accepted inputs are marks of the call: reading data makes no mark of an operation.

* `Call.Before`: a call with marks of operations before a number only;
* `Inputs.Read.world_before`: what a run starts with has no other marks than the call.
-/

namespace Covenant

variable {n : Nat}

/-- A value has earlier marks only if renaming later ones leaves it alone. -/
theorem Value.before_of_remarked {v : Value} (h : ∀ f : Nat → Nat, f.Injective → (∀ k, k < n → f k = k) →
    v.remarked (Origin.renamed f) = v) : v.toDatum.Before n := by
  refine Datum.before_of_renamed fun f inj keeps => ?_
  rw [Datum.renamed_eq, ← Value.toDatum_remarked, h f inj keeps]

/-- The marks of places are not renamed. -/
theorem Origin.moves_renamed (f : Nat → Nat) (path : String) : Moves (renamed f) path path :=
  fun _ => rfl

theorem Datum.Before.remarked {d : Datum} (h : d.Before n) {f : Nat → Nat}
    (keeps : ∀ k, k < n → f k = k) : d.remarked (Origin.renamed f) = d := by
  rw [← Datum.renamed_eq, h.renamed keeps]

/-- The marks in the data of a call are those of operations before a number. -/
structure Call.Before (n : Nat) (call : Call) : Prop where
  receiver : call.receiver.Before n
  arguments : call.arguments.Before n
  others : call.others.Before n

namespace Inputs

variable {abi : Abi} {call : Call} {inputs : Inputs}

theorem before_of_readOthers {others : Datum} (early : others.Before n)
    {read : List (String × List SuppliedRecord)} (h : readOthers abi others = .ok read) :
    ∀ p ∈ read, ∀ r ∈ p.2, (Value.struct r.value).toDatum.Before n := by
  intro p hp r hr
  obtain ⟨type, -, -, data, given, records⟩ := exists_of_readOthers h hp
  obtain ⟨i, d, hd, made⟩ := exists_datum_of_readRecords records hr
  refine Value.before_of_remarked fun f _ keeps => congrArg Value.struct ?_
  have again := readSupplied_remarked (Origin.moves_renamed f _) made
  rw [remarked_of_mem_recordData (early.remarked keeps) given d hd, made] at again
  exact (congrArg SuppliedRecord.value (Except.ok.inj again)).symm

/-- A run on accepted inputs starts with the marks of the call only. -/
theorem Read.world_before (h : Read abi call inputs) (early : call.Before n)
    {records : List (String × List (Bytes × Datum))}
    (found : LinkedFunction.recordsOf inputs.others = .ok records) (f : LinkedFunction) :
    World.Before n
      ⟨⟨inputs.callerKey, records⟩, (f.machine inputs).locals, (f.machine inputs).receiver⟩ where
  records p hp e he := by
    obtain ⟨supplied, hs, r, hr, same⟩ := LinkedFunction.mem_of_recordsOf found hp he
    rw [same]
    exact before_of_readOthers early.others h.others _ hs r hr
  locals d hd := by
    rcases List.mem_append.mp hd with argument | unset
    · obtain ⟨v, hv, rfl⟩ := List.mem_map.mp argument
      exact Value.before_of_remarked fun f _ keeps =>
        h.arguments_remarked (Origin.moves_renamed f _) (early.arguments.remarked keeps) v hv
    · obtain rfl := List.eq_of_mem_replicate unset
      exact fun _ hk => by cases hk
  receiver := by
    unfold LinkedFunction.machine Machine.start
    cases hr : inputs.receiver with
    | none => exact fun _ hk => by cases hk
    | some fields =>
      exact Value.before_of_remarked (v := .struct fields) fun f _ keeps => congrArg Value.struct
        (h.receiver_remarked (Origin.moves_renamed f _) (early.receiver.remarked keeps) hr)

end Inputs

end Covenant
