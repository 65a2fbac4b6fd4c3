import Covenant.Abi.Reader
import Covenant.Proofs.Run.Conformance
/-!
Inputs that have been accepted suit the description of the function.

* `Inputs.Suits`: arguments of the types that are read, a receiver that is what the call supplies in the
  fields that the outcome depends on, records of the types that are looked up, and salts for all of them;
* `accepted_inputs_suit`: so are all inputs that are accepted, where there are arguments for all parameters
  just if none of them is named or there are names enough;
* `argument_is_dropped`: an argument of a parameter without a name is left out.
-/

namespace Covenant

open Value (FieldsOf)

namespace Abi

/-- Arguments are read for all parameters if there are no names, or as many as parameters. -/
theorem readTypes_eq_iff (abi : Abi) : abi.readTypes = abi.parameterTypes ↔
    abi.parameterNames = [] ∨ abi.parameterTypes.length ≤ abi.parameterNames.length := by
  unfold readTypes
  split
  next unnamed => simp [List.isEmpty_iff.mp unnamed]
  next named =>
    rw [List.take_eq_self_iff, or_iff_right]
    exact mt List.isEmpty_iff.mpr named

end Abi

/-- Inputs as the description of a function has them. -/
structure Inputs.Suits (abi : Abi) (call : Call) (inputs : Inputs) : Prop where
  arguments : List.Forall₂ (fun type v => Value.IsOf type v) abi.readTypes inputs.arguments
  alone : abi.thisType = none → inputs.receiver = none ∧ inputs.salts = []
  /-- the fields of the type in order, as they are supplied if they count -/
  receiver : ∀ type, abi.thisType = some type → ∃ supplied fields, call.Gives type supplied ∧
    inputs.receiver = some fields ∧ FieldsOf type.fields fields ∧
    ∀ name t, type.field? name = some t → fields.lookup name =
      if name ∈ abi.dependentNames then supplied.lookup name else some (Value.default t)
  salts : ∀ type, abi.thisType = some type → type.Salted inputs.salts
  others : List.Forall₂ (fun (type : RecordType) p => p.1 = type.name ∧ ∀ r ∈ p.2, r.IsOf type)
    abi.otherTypes inputs.others

/-- Whatever describes a function and whatever data a call has, if fields of the receiver and record types
have different names, then accepted inputs suit the description. There is an argument of its type for each
parameter just if no parameter is named or the names are enough; else those without a name have none. -/
theorem accepted_inputs_suit {abi : Abi} {call : Call} {inputs : Inputs}
    (distinct : ∀ type, abi.thisType = some type → type.fieldNames.Nodup)
    (single : (abi.otherTypes.map (·.name)).Nodup) (accepted : Inputs.ofCall abi call = .ok inputs) :
    inputs.Suits abi call ∧ (abi.readTypes = abi.parameterTypes ↔
      abi.parameterNames = [] ∨ abi.parameterTypes.length ≤ abi.parameterNames.length) := by
  have read := Inputs.read_of_ofCall accepted
  refine ⟨⟨read.arguments_typed, ?_, ?_, fun type this => read.salted this, ?_⟩, abi.readTypes_eq_iff⟩
  · intro none
    have receiver := read.receiver
    rw [none] at receiver
    exact ⟨(pure_eq_ok.mp receiver).symm, read.unsalted none⟩
  · intro type this
    obtain ⟨supplied, supplies, given⟩ := read.exists_supplied this
    refine ⟨supplied, _, supplies, given, supplies.typed.minimal (distinct type this) abi, ?_⟩
    intro name t declared
    split
    next counts => exact Abi.lookup_minimal supplies.typed.names counts
    next other =>
      rw [Abi.lookup_minimal_eq, declared, Option.map_some, if_neg (mt List.contains_iff_mem.mp other)]
  · obtain ⟨members, same, each⟩ := Inputs.types_of_readOthers read.others
    have names : abi.otherTypes.map (·.name) = members.map Prod.fst :=
      map_eq_of_forall₂ (each.imp fun _ _ h => h.1.symm)
    rw [same, ofMembers_of_nodup (names ▸ single)]
    exact each

/-- The inputs of a payment: an argument, a receiver whose fields both count, and the record of the bank. -/
theorem payment_suits : ∃ program c inputs type,
    Program.read paySource = .ok program ∧ program.compile "Account" "pay" = .ok c ∧
    Inputs.ofCall c.abi payCall = .ok inputs ∧ c.abi.thisType = some type ∧
    type.fieldNames = ["bank", "past"] ∧ c.abi.otherTypes.map (·.name) = ["Bank"] ∧
    inputs.Suits c.abi payCall ∧ c.abi.readTypes = c.abi.parameterTypes := by
  have runs : (do
      let program ← (Program.read paySource).toOption
      let c ← (program.compile "Account" "pay").toOption
      let inputs ← (Inputs.ofCall c.abi payCall).toOption
      let type ← c.abi.thisType
      return inputs.arguments.length == 1 && type.fieldNames == ["bank", "past"] &&
        c.abi.otherTypes.map (·.name) == ["Bank"] && c.abi.parameterNames == ["k"] &&
        c.abi.parameterTypes.length == 1) = some true := by
    decide +kernel
  simp only [Option.bind_eq_bind, Option.bind_eq_some_iff, toOption_eq_some, Option.pure_def,
    Option.some.injEq, Bool.and_eq_true, beq_iff_eq] at runs
  obtain ⟨program, hp, c, hc, inputs, accepted, type, this, ⟨⟨⟨-, fields⟩, types⟩, names⟩, count⟩ := runs
  have distinct : ∀ t, c.abi.thisType = some t → t.fieldNames.Nodup := by
    intro t ht
    cases this.symm.trans ht
    rw [fields]
    decide
  obtain ⟨suits, all⟩ := accepted_inputs_suit distinct (by rw [types]; decide) accepted
  exact ⟨program, c, inputs, type, hp, hc, accepted, this, fields, types, suits,
    all.mpr (.inr (by rw [names, count]; decide))⟩

/-- The description of a function of two numbers, of which the first one only has a name. -/
def halfNamed : Datum :=
  let number := Ty.toDatum (.primitive .u32)
  .record [("contract", .text "R"), ("function", .text "f"), ("this_type", .null),
    ("param_names", .list [.text "a"]), ("param_types", .list [number, number])]

/-- Two arguments are accepted for it, and the second one is dropped. -/
theorem argument_is_dropped : ∃ abi inputs, Abi.ofDatum? halfNamed = some abi ∧
    abi.thisType = none ∧ abi.otherTypes = [] ∧ abi.parameterTypes.length = 2 ∧
    Inputs.ofCall abi { Call.empty with arguments := .list [.integer 1, .integer 2] } = .ok inputs ∧
    inputs.arguments = [.scalar .u32 (.integer 1)] := by
  have reads : Abi.ofDatum? halfNamed = some ⟨"R", "f", none, ["a"],
      [.primitive .u32, .primitive .u32], none, [], [], [], .denied, .denied⟩ := by
    decide +kernel
  exact ⟨_, _, reads, rfl, rfl, rfl, rfl, rfl⟩

end Covenant
