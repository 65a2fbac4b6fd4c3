import Covenant.Proofs.Machine.Wholeness
import Covenant.Proofs.Run.Conformance
import Covenant.Proofs.Run.Minimal
import Covenant.Proofs.Value.Parts
/-!
Absent keys in runs of compiled functions.

* `LinkedCode.whole_of_link`, `Inputs.Read.filled_machine`: neither compiled code nor accepted inputs bring
  in data with something absent;
* `absent_keys_are_not_stored`: instructions that store into a container refuse an absent key, so nothing is
  absent in the receiver unless the run has made a list with an absent item;
* `absent_key_is_gathered`: a list that is written out takes an absent key, and is stored with it.
-/

namespace Covenant

open Machine

/-! ## Compiled code -/

theorem IsLiteral.whole {p : Primitive} {d : Datum} (h : IsLiteral p d) : d.Whole := by
  cases h <;> simp

namespace LinkedCode

/-- What is linked from proper code pushes literals and keys. -/
theorem whole_of_link {l : Layout} {abi : Abi} {header : Header} {code : Code} {linked : LinkedCode}
    (proper : Code.Proper l code) (h : code.link abi header = .ok linked) : linked.Whole := by
  intro place j hj
  refine (constants_of_link proper h hj).imp_right fun constants kind d pushed => ?_
  rcases constants kind d pushed with ⟨p, own⟩ | ⟨k, rfl⟩
  · exact IsLiteral.whole own
  · simp

end LinkedCode

/-! ## Accepted inputs -/

namespace Value

mutual
/-- The datum of a value of a type has nothing absent in it. -/
theorem IsOf.whole : ∀ {type : Ty} {v : Value}, v.IsOf type → v.toDatum.Whole
  | _, _, .scalar h => by cases h <;> simp [toDatum]
  | _, _, .publicKey _ | _, _, .reference _ _ => by simp [toDatum]
  | _, _, .array each => by
    rw [toDatum, itemData_eq_map]
    refine Datum.whole_list.mpr fun d hd => ?_
    obtain ⟨v, hv, rfl⟩ := List.mem_map.mp hd
    exact (each v hv).whole
  | _, _, .struct all => each_struct all.whole

theorem FieldsOf.whole : ∀ {types : List (String × Ty)} {fields : List (String × Value)},
    FieldsOf types fields → ∀ f ∈ fields, f.2.toDatum.Whole
  | _, _, .nil => nofun
  | _, _, .cons first rest => List.forall_mem_cons.mpr ⟨first.whole, rest.whole⟩
end

end Value

namespace Inputs.Read

variable {c : Compiled} {program : Program} {contract function : String} {call : Call} {inputs : Inputs}

/-- A run on accepted inputs starts with nothing absent but locals that are not set yet. -/
theorem filled_machine (read : Read c.abi call inputs) (hc : program.compile contract function = .ok c)
    (code : LinkedCode) (fingerprint : String) :
    ((⟨c.abi, c.header, code, fingerprint⟩ : LinkedFunction).machine inputs).Filled where
  stack := nofun
  locals := by
    intro d hd
    rcases List.mem_append.mp hd with argument | unset
    · obtain ⟨v, hv, rfl⟩ := List.mem_map.mp argument
      obtain ⟨type, -, own⟩ := exists_of_forall₂ read.arguments_typed hv
      exact own.whole.filled
    · exact .inl (List.eq_of_mem_replicate unset)
  receiver := by
    obtain ⟨schema, record, -, describes, declared, -⟩ := Program.describes_of_compile hc
    obtain ⟨fields, given, typed⟩ := read.exists_receiver describes.this declared.nodup
    simp only [LinkedFunction.machine, Machine.start, given]
    exact Value.each_struct typed.whole

/-- The supplied records have nothing absent in them. -/
theorem whole (read : Read c.abi call inputs) {records : List (String × List (Bytes × Datum))}
    (found : LinkedFunction.recordsOf inputs.others = .ok records) :
    (⟨inputs.callerKey, records⟩ : Surroundings).Whole := by
  intro contract d e h
  obtain ⟨table, id, here, held⟩ := Surroundings.exists_of_recordOf h
  obtain ⟨supplied, given, r, hr, rfl⟩ := LinkedFunction.mem_of_recordsOf found here held
  obtain ⟨type, -, -, typed⟩ := read.exists_type given
  have struct : (Value.struct r.value).IsOf (.struct "" type.fields) := .struct (typed r hr)
  exact struct.whole

end Inputs.Read

/-! ## Runs -/

/-- An absent key is not stored: an instruction that replaces a field, a member or an item, or adds an item,
fails when the value is absent. So nothing is absent in the receiver at any depth wherever a run on accepted
inputs comes, unless it has made a list with an absent item. -/
theorem absent_keys_are_not_stored {source : String} {program : Program} {contract function : String}
    {c : Compiled} (hp : Program.read source = .ok program) (hc : program.compile contract function = .ok c)
    {code : LinkedCode} (linked : c.code.link c.abi c.header = .ok code) {call : Call} {inputs : Inputs}
    (accepted : Inputs.ofCall c.abi call = .ok inputs) {records : List (String × List (Bytes × Datum))}
    (found : LinkedFunction.recordsOf inputs.others = .ok records) {fingerprint : String} {n : Nat}
    {m : Machine} (reached : Reaches code ⟨inputs.callerKey, records⟩
      ((⟨c.abi, c.header, code, fingerprint⟩ : LinkedFunction).machine inputs) n m) :
    (m.receiver.Whole ∨ ∃ j a, j < n ∧ Reaches code ⟨inputs.callerKey, records⟩
      ((⟨c.abi, c.header, code, fingerprint⟩ : LinkedFunction).machine inputs) j a ∧ a.GathersAbsent code) ∧
    ∀ i place rest, code[m.place]? = some i → storesIn? i = some place → m.stack = .null :: rest →
      Fails code ⟨inputs.callerKey, records⟩ m (.absentKey place) := by
  have read := Inputs.read_of_ofCall accepted
  obtain ⟨l, proper⟩ := Program.proper_of_compile hp hc
  have whole := LinkedCode.whole_of_link proper linked
  refine ⟨?_, fun i place rest here stores top => fails_of_absent here stores top⟩
  exact ((read.filled_machine hc code fingerprint).reaches whole (read.whole found) reached).imp_left
    Machine.Filled.receiver

/-- A function that adds the key of the caller to a list inside a record. -/
def boxSource : String :=
  "contract R \x7b id: string; box: \x7b keys: PublicKey[]; \x7d; " ++
  "@call g() \x7b this.box.keys.push(ctx.publicKey); \x7d \x7d"

def boxCall : Call :=
  { Call.empty with receiver := .record [("id", .text ""), ("box", .record [("keys", .list [])])] }

def Machine.isListing (code : LinkedCode) (m : Machine) : Bool :=
  match code[m.place]? with
  | some (.arrayNew _) => true
  | _ => false

def Machine.addsAbsent (code : LinkedCode) (m : Machine) : Bool :=
  match code[m.place]?, m.stack with
  | some .arrayPush, .null :: _ => true
  | _, _ => false

theorem box_refuses_absent_key : ∃ program c code inputs records m, Program.read boxSource = .ok program ∧
    program.compile "R" "g" = .ok c ∧ c.code.link c.abi c.header = .ok code ∧
    Inputs.ofCall c.abi boxCall = .ok inputs ∧ LinkedFunction.recordsOf inputs.others = .ok records ∧
    Reaches code ⟨inputs.callerKey, records⟩
      ((⟨c.abi, c.header, code, ""⟩ : LinkedFunction).machine inputs) 4 m ∧
    m.receiver.Whole ∧ Fails code ⟨inputs.callerKey, records⟩ m (.absentKey .element) := by
  have runs : (do
      let program ← (Program.read boxSource).toOption
      let c ← (program.compile "R" "g").toOption
      let code ← (c.code.link c.abi c.header).toOption
      let inputs ← (Inputs.ofCall c.abi boxCall).toOption
      let records ← (LinkedFunction.recordsOf inputs.others).toOption
      let begin := (⟨c.abi, c.header, code, ""⟩ : LinkedFunction).machine inputs
      let m ← after code ⟨inputs.callerKey, records⟩ 4 begin
      return m.addsAbsent code && (List.range 4).all fun j =>
        (after code ⟨inputs.callerKey, records⟩ j begin).all fun a => !a.isListing code) = some true := by
    decide +kernel
  simp only [Option.bind_eq_bind, Option.bind_eq_some_iff, toOption_eq_some, Option.pure_def,
    Option.some.injEq, Bool.and_eq_true, List.all_eq_true, List.mem_range] at runs
  obtain ⟨program, hp, c, hc, code, linked, inputs, accepted, records, found, m, reached, adds, each⟩ := runs
  have reached := reaches_iff_after.mpr reached
  obtain ⟨whole, refused⟩ := absent_keys_are_not_stored hp hc linked accepted found reached
  refine ⟨program, c, code, inputs, records, m, hp, hc, linked, accepted, found, reached, ?_, ?_⟩
  · refine whole.resolve_right ?_
    rintro ⟨j, a, few, reached', count, list, -⟩
    have none := each j few
    rw [reaches_iff_after.mp reached', Option.all_some, isListing, list] at none
    cases none
  · unfold addsAbsent at adds
    split at adds
    next rest here top => exact refused .arrayPush .element rest here rfl top
    next => cases adds

/-- A function that stores a list of the key of the caller. -/
def gatheringSource : String :=
  "contract R \x7b id: string; keys: PublicKey[]; @call g() \x7b this.keys = [ctx.publicKey]; \x7d \x7d"

def gatheringCall : Call :=
  { Call.empty with receiver := .record [("id", .text ""), ("keys", .list [])] }

/-- Whether a member of a datum is a list with an absent item. -/
def Datum.listsAbsent (name : String) (d : Datum) : Bool :=
  match d.member name with
  | .ok (.list [.null]) => true
  | _ => false

theorem Datum.not_whole_of_listsAbsent {name : String} {d : Datum} (h : d.listsAbsent name = true) :
    ¬ d.Whole := by
  unfold listsAbsent at h
  split at h
  next held =>
    intro whole
    exact absurd rfl ((each_atom rfl).mp (whole_list.mp (whole.filled.member held) .null List.mem_cons_self))
  next => cases h

/-- Without a key of the caller the list has an absent item, and stands in the receiver. -/
theorem absent_key_is_gathered : ∃ program c code inputs records n m,
    Program.read gatheringSource = .ok program ∧ program.compile "R" "g" = .ok c ∧
    c.code.link c.abi c.header = .ok code ∧
    Inputs.ofCall c.abi gatheringCall = .ok inputs ∧ inputs.callerKey = none ∧
    LinkedFunction.recordsOf inputs.others = .ok records ∧
    Reaches code ⟨inputs.callerKey, records⟩
      ((⟨c.abi, c.header, code, ""⟩ : LinkedFunction).machine inputs) n m ∧ ¬ m.receiver.Whole := by
  have runs : (do
      let program ← (Program.read gatheringSource).toOption
      let c ← (program.compile "R" "g").toOption
      let code ← (c.code.link c.abi c.header).toOption
      let inputs ← (Inputs.ofCall c.abi gatheringCall).toOption
      let records ← (LinkedFunction.recordsOf inputs.others).toOption
      let m ← after code ⟨inputs.callerKey, records⟩ 3
        ((⟨c.abi, c.header, code, ""⟩ : LinkedFunction).machine inputs)
      return inputs.callerKey.isNone && m.receiver.listsAbsent "keys") = some true := by
    decide +kernel
  simp only [Option.bind_eq_bind, Option.bind_eq_some_iff, toOption_eq_some, Option.pure_def,
    Option.some.injEq, Bool.and_eq_true, Option.isNone_iff_eq_none] at runs
  obtain ⟨program, hp, c, hc, code, linked, inputs, accepted, records, found, m, reached, nobody,
    lists⟩ := runs
  exact ⟨program, c, code, inputs, records, 3, m, hp, hc, linked, accepted, nobody, found,
    reaches_iff_after.mpr reached, Datum.not_whole_of_listsAbsent lists⟩

end Covenant
