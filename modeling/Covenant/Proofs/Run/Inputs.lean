import Covenant.Proofs.Code.Linking
import Covenant.Proofs.Datum.Access
import Covenant.Proofs.Except
import Covenant.Proofs.Lists
import Covenant.Run
/-!
What is known of inputs that have been accepted, and of the machine that starts on them.
-/

namespace Covenant

/-! ## Members of values -/

theorem Value.fieldData_eq_map (fields : List (String × Value)) :
    Value.fieldData fields = fields.map fun f => (f.1, f.2.toDatum) := by
  induction fields with
  | nil => rfl
  | cons f rest ih => rw [Value.fieldData, ih, List.map_cons]

theorem Value.lookup_fieldData (fields : List (String × Value)) (name : String) :
    (Value.fieldData fields).lookup name = (fields.lookup name).map Value.toDatum := by
  rw [Value.fieldData_eq_map]
  exact lookup_map (fun f => f.2.toDatum) fields name

/-! ## Accepted inputs -/

namespace Inputs

structure Read (abi : Abi) (call : Call) (inputs : Inputs) : Prop where
  described : inputs.abi = abi
  callerKey : readKey call.callerKey = .ok inputs.callerKey
  salts : ∀ type, abi.thisType = some type → readSalts type "this_salts" call.salts = .ok inputs.salts
  unsalted : abi.thisType = none → inputs.salts = []
  receiver : abi.thisType.mapM (fun type => readReceiver abi type call.receiver) =
    .ok inputs.receiver
  arguments : readArguments abi call.arguments = .ok inputs.arguments
  others : readOthers abi call.others = .ok inputs.others
  references : ∀ fields, inputs.receiver = some fields →
    ∀ f ∈ abi.dependentFields, checkReference abi fields inputs.others f = .ok ()

theorem read_of_ofCall {abi : Abi} {call : Call} {inputs : Inputs}
    (h : ofCall abi call = .ok inputs) : Read abi call inputs := by
  unfold ofCall at h
  obtain ⟨callerKey, hk, h⟩ := bind_eq_ok.mp h
  simp only at h
  cases this : abi.thisType
  all_goals
    rw [this] at h
    obtain ⟨salts, hs, h⟩ := bind_eq_ok.mp h
    obtain ⟨receiver, hr, h⟩ := bind_eq_ok.mp h
    obtain ⟨arguments, ha, h⟩ := bind_eq_ok.mp h
    obtain ⟨others, ho, h⟩ := bind_eq_ok.mp h
    have salted : ∀ type, abi.thisType = some type → readSalts type "this_salts" call.salts = .ok salts := by
      intro type known
      cases this.symm.trans known <;> exact hs
    have unsalted : abi.thisType = none → salts = [] := by
      intro known
      cases this.symm.trans known <;> exact (pure_eq_ok.mp hs).symm
    cases receiver with
    | none =>
      cases h
      exact ⟨rfl, hk, salted, unsalted, this ▸ hr, ha, ho, fun _ hf => by cases hf⟩
    | some fields =>
      obtain ⟨⟨⟩, hc, h⟩ := bind_eq_ok.mp h
      cases h
      refine ⟨rfl, hk, salted, unsalted, this ▸ hr, ha, ho, fun fields' hf => ?_⟩
      cases hf
      exact forM_eq_ok.mp hc

theorem misusing_eq_ok {α : Type} {r : Except Misuse α} {a : α} :
    misusing r = .ok a ↔ r = .ok a := by
  cases r <;> simp [misusing]

theorem readArgument_eq_ok {a : String × Ty × Datum} {v : Value} :
    readArgument a = .ok v ↔ Value.ofJson ("args." ++ a.1) a.2.1 a.2.2 = .ok v := by
  rw [readArgument]
  cases Value.ofJson ("args." ++ a.1) a.2.1 a.2.2 <;> simp

theorem Read.arguments_length_le {abi : Abi} {call : Call} {inputs : Inputs}
    (h : Read abi call inputs) : inputs.arguments.length ≤ abi.parameterTypes.length := by
  have h := h.arguments
  unfold readArguments at h
  obtain ⟨data, -, h⟩ := bind_eq_ok.mp h
  split at h
  · cases h
  · rw [← (mapM_eq_ok.mp h).length_eq, List.length_zip, List.length_zip]
    omega

/-- The receiver has just the fields of its type. -/
theorem names_of_readReceiver {abi : Abi} {type : RecordType} {d : Datum}
    {fields : List (String × Value)} (h : readReceiver abi type d = .ok fields) :
    fields.map Prod.fst = type.fieldNames := by
  unfold readReceiver at h
  simp only at h
  split at h
  all_goals
    obtain ⟨supplied, -, h⟩ := bind_eq_ok.mp h
    obtain rfl := pure_eq_ok.mp h
    rw [List.map_map]
    rfl

theorem Read.receiver_names {abi : Abi} {call : Call} {inputs : Inputs}
    (h : Read abi call inputs) {type : RecordType} (ht : abi.thisType = some type) :
    ∃ fields, inputs.receiver = some fields ∧ fields.map Prod.fst = type.fieldNames := by
  have hr := h.receiver
  rw [ht] at hr
  rcases optionMapM_eq_ok.mp hr with ⟨h, -⟩ | ⟨type', fields, h, hf, hr⟩
  · cases h
  · cases h
    exact ⟨fields, hf, names_of_readReceiver hr⟩

end Inputs

/-! ## Linked functions -/

structure LinkedFunction.Parts (abi : Abi) (text : String) (f : LinkedFunction) (code : Code) :
    Prop where
  described : f.abi = abi
  read : Code.read text = .ok (f.header, code)
  header : Code.checkHeader abi f.header = .ok ()
  link : code.link abi f.header = .ok f.code

theorem Abi.parts_of_link {abi : Abi} {text : String} {f : LinkedFunction}
    (h : abi.link text = .ok f) : ∃ code, f.Parts abi text code := by
  unfold Abi.link at h
  obtain ⟨⟨header, code⟩, hr, h⟩ := bind_eq_ok.mp h
  obtain ⟨⟨⟩, hh, h⟩ := bind_eq_ok.mp h
  obtain ⟨linked, hl, h⟩ := bind_eq_ok.mp h
  cases h
  exact ⟨code, rfl, hr, hh, hl⟩

/-- What the check of a header finds. -/
theorem Code.header_of_checkHeader {abi : Abi} {header : Header}
    (h : checkHeader abi header = .ok ()) : header.contract = abi.contract ∧
      header.function = abi.function ∧ header.parameters = abi.parameterTypes.length ∧
      header.returns = abi.returnType.isSome ∧ header.parameters ≤ header.locals := by
  unfold checkHeader at h
  split at h
  next => cases h
  next names =>
    split at h
    next => cases h
    next parameters =>
      split at h
      next => cases h
      next returns =>
        split at h
        next => cases h
        next locals =>
          simp only [not_or, not_not] at names parameters returns
          exact ⟨names.1, names.2, parameters, returns, Nat.le_of_not_lt locals⟩

namespace LinkedFunction

theorem machine_locals_length {f : LinkedFunction} {inputs : Inputs}
    (h : inputs.arguments.length ≤ f.header.locals) :
    (f.machine inputs).locals.length = f.header.locals := by
  simp only [machine, Machine.start, List.length_append, List.length_map, List.length_replicate]
  omega

/-- The receiver that a run starts with has every field of its type. -/
theorem machine_receiver_member {f : LinkedFunction} {inputs : Inputs} {call : Call}
    (h : Inputs.Read f.abi call inputs) {name : String}
    (hn : (f.abi.thisType.bind (·.field? name)).isSome) :
    ∃ d, (f.machine inputs).receiver.member name = .ok d := by
  cases ht : f.abi.thisType with
  | none => simp [ht] at hn
  | some type =>
    obtain ⟨fields, hf, names⟩ := h.receiver_names ht
    have : ∃ d, (ofMembers (Value.fieldData fields)).lookup name = some d := by
      rw [lookup_ofMembers, exists_lookup_iff, List.map_reverse, List.mem_reverse,
        Value.fieldData_eq_map, List.map_map]
      change name ∈ fields.map Prod.fst
      rw [names]
      simp only [ht, Option.bind_some, RecordType.field?] at hn
      exact exists_lookup_iff.mp (Option.isSome_iff_exists.mp hn)
    obtain ⟨d, hd⟩ := this
    refine ⟨d, ?_⟩
    simp [machine, Machine.start, hf, Datum.member, hd]

/-- A run fails just as its execution does. -/
theorem run_eq_error_iff {f : LinkedFunction} {inputs : Inputs} (described : inputs.abi = f.abi)
    {records : List (String × List (Bytes × Datum))} (found : recordsOf inputs.others = .ok records)
    {limit : Nat} {failure : Failure} : f.run inputs limit = .error (.execution failure) ↔
      (Machine.run f.code ⟨inputs.callerKey, records⟩ limit (f.machine inputs)).outcome =
        .error failure := by
  unfold run
  rw [if_neg (not_not.mpr described), found]
  dsimp only
  cases (Machine.run f.code ⟨inputs.callerKey, records⟩ limit (f.machine inputs)).outcome with
  | error other => simp
  | ok departure =>
    dsimp only
    split <;> simp

/-- A run yields what is made of the state that it has left. -/
theorem run_of_ended {f : LinkedFunction} {inputs : Inputs} (described : inputs.abi = f.abi)
    {records : List (String × List (Bytes × Datum))} (found : recordsOf inputs.others = .ok records)
    {limit : Nat} {outcome : Except Failure Machine.Departure} {m : Machine}
    (ended : Machine.run f.code ⟨inputs.callerKey, records⟩ limit (f.machine inputs) = ⟨outcome, m⟩) :
    f.run inputs limit = match outcome with
      | .error failure => .error (.execution failure)
      | .ok departure =>
        match f.output inputs departure m with
        | .ok output => .ok output
        | .error why => .error (.misuse why) := by
  unfold run
  rw [if_neg (not_not.mpr described), found]
  simp only [ended]
  cases outcome <;> rfl

theorem run_of_departs {f : LinkedFunction} {inputs : Inputs} (described : inputs.abi = f.abi)
    {records : List (String × List (Bytes × Datum))} (found : recordsOf inputs.others = .ok records)
    {limit : Nat} {departure : Machine.Departure} {m : Machine} {output : Output}
    (ended : Machine.run f.code ⟨inputs.callerKey, records⟩ limit (f.machine inputs) = ⟨.ok departure, m⟩)
    (made : f.output inputs departure m = .ok output) : f.run inputs limit = .ok output := by
  rw [run_of_ended described found ended]
  dsimp only
  rw [made]

end LinkedFunction

end Covenant
