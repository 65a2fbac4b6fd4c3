import Covenant.Proofs.Compile.Acceptance
import Covenant.Proofs.Machine.Conformance
import Covenant.Proofs.Run.Records
/-!
The types of the data of a run.

* `Program.layout`: what a function is compiled against: the records of its program, its own one and the
  types of its slots;
* `Compiled.Fits`, `Program.fits_of_compile`: code is typed in this layout, and its description and header
  agree with it;
* `Inputs.Read.conforms_machine`, `Inputs.Read.conform`: a run on accepted inputs starts with data of their
  types, and refers to such data only;
* `Compiled.Fits.conforms`: so it has such data wherever it comes;
* `run_keeps_types`: whatever is compiled, the fields of the receiver, the locals and the result have
  their declared types.
-/

namespace Covenant

open Machine

/-! ## Layouts -/

/-- What a function of a program is compiled against. -/
def Program.layout (program : Program) (contract function : String) : Except CompileError Layout := do
  let schema ← Schema.ofProgram program
  let record ← schema.record contract
  if function = readAuthName then return ⟨schema, record.type, []⟩
  else match record.function? function with
    | some declaration => return ⟨schema, record.type, (← schema.check record declaration).slots⟩
    | none => CompileError.throwGlobal (.unknownFunction function)

structure Compiled.Fits (c : Compiled) (l : Layout) : Prop where
  typed : Code.Types l c.abi.returnType [] [] c.code []
  nodup : c.code.labelNames.Nodup
  leaves : ∃ front last, c.code = front ++ [.op last] ∧ last.isLast = true
  this : c.abi.thisType = some l.this
  distinct : l.this.toTy.Distinct
  /-- the fields that are loaded -/
  loads : ∀ {name type}, .instruction (.loadThis name) ∈ c.code → l.this.field? name = some type →
    name ∈ c.abi.dependentNames
  own : ∀ name ∈ c.abi.dependentNames, name ∈ l.this.fieldNames
  locals : c.header.locals = l.slots.length
  parameters : c.abi.parameterTypes <+: l.slots
  parameter : ∀ type ∈ c.abi.parameterTypes, type.Distinct
  result : ∀ type, c.abi.returnType = some type → type.Distinct
  /-- the records that are looked up -/
  others : ∀ type ∈ c.abi.otherTypes, type.toTy.Distinct ∧
    ∃ r, l.schema.find? type.name = some r ∧ r.type = type

/-- What is compiled from source text fits its layout. -/
theorem Program.fits_of_compile {source : String} {program : Program} {contract function : String}
    {c : Compiled} (hp : Program.read source = .ok program)
    (hc : program.compile contract function = .ok c) :
    ∃ l, program.layout contract function = .ok l ∧ c.Fits l := by
  have named := Program.named_of_read hp
  obtain ⟨schema, hs, hc⟩ := bind_eq_ok.mp hc
  obtain ⟨record, hr, hc⟩ := bind_eq_ok.mp hc
  obtain ⟨-, -, hc⟩ := bind_eq_ok.mp hc
  obtain ⟨readPolicy, hread, hc⟩ := bind_eq_ok.mp hc
  obtain ⟨member, -⟩ := Schema.mem_of_find? (Schema.record_eq_ok.mp hr)
  have declared : ∀ r ∈ schema, r.Declared (program.map (·.name)) :=
    fun r h => (Schema.declared_of_ofProgram hs h).2
  have others : ∀ {abi : Abi} {code : Code}, abi.Describes schema record code →
      ∀ type ∈ abi.otherTypes, type.toTy.Distinct ∧
        ∃ r, schema.find? type.name = some r ∧ r.type = type := by
    intro abi code describes type ht
    obtain ⟨r, known, rfl⟩ := describes.known ht
    exact ⟨(declared r (Schema.mem_of_find? known).1).distinct, r, known, rfl⟩
  have loads : ∀ {abi : Abi} {code : Code}, abi.Describes schema record code → ∀ {name type},
      .instruction (.loadThis name) ∈ code → record.type.field? name = some type →
        name ∈ abi.dependentNames := by
    intro abi code describes name type load held
    exact List.mem_map.mpr ⟨_, describes.dependent load held, rfl⟩
  have own : ∀ {abi : Abi} {code : Code}, abi.Describes schema record code →
      ∀ name ∈ abi.dependentNames, name ∈ record.type.fieldNames := by
    intro abi code describes name h
    obtain ⟨⟨name, type⟩, hf, rfl⟩ := List.mem_map.mp h
    exact exists_lookup_iff.mp ⟨type, describes.own hf⟩
  rw [layout, hs, ok_bind, hr, ok_bind]
  by_cases check : function = readAuthName
  · rw [if_pos check] at hc ⊢
    obtain rfl := pure_eq_ok.mp hc
    exact ⟨_, rfl, {
      typed := (Schema.refers_of_readPolicy hread).typed_readAuth
        (l := ⟨schema, record.type, []⟩) fun r h => ⟨_, declared r h⟩
      nodup := ((Policy.labelled_code 0 readPolicy).op _).nodup
      leaves := ⟨_, _, rfl, rfl⟩
      this := rfl
      distinct := (declared record member).distinct
      loads := loads Schema.describes_describe
      own := own Schema.describes_describe
      locals := rfl
      parameters := List.prefix_refl []
      parameter := by
        intro type h
        cases h
      result := by
        intro type h
        cases h
        exact .primitive .boolean
      others := others Schema.describes_describe }⟩
  · rw [if_neg check] at hc ⊢
    cases hd : record.function? function with
    | none =>
      rw [hd] at hc
      cases hc
    | some declaration =>
      rw [hd] at hc
      obtain ⟨f, hf, hc⟩ := bind_eq_ok.mp hc
      obtain rfl := pure_eq_ok.mp hc
      have sound := Schema.sound_of_check named hs member (List.mem_of_find?_eq_some hd) hf
      dsimp only
      rw [hf]
      exact ⟨_, rfl, {
        typed := f.typed sound.policy (fun r h => ⟨_, declared r h⟩) sound.body
        nodup := f.nodup_labelNames
        leaves := f.exists_last
        this := rfl
        distinct := (declared record member).distinct
        loads := loads Schema.describes_describe
        own := own Schema.describes_describe
        locals := rfl
        parameters := sound.parameters
        parameter := by
          intro type h
          obtain ⟨p, hp, rfl⟩ := List.mem_map.mp h
          exact sound.distinct p hp
        result := sound.result
        others := others Schema.describes_describe }⟩

/-! ## The start of a run -/

namespace Abi

/-- The types of the parameters that arguments are read for: all of them, or only as many as there are
names when parameters have names. -/
def readTypes (abi : Abi) : List Ty :=
  if abi.parameterNames.isEmpty then abi.parameterTypes
  else abi.parameterTypes.take abi.parameterNames.length

theorem readTypes_prefix (abi : Abi) : abi.readTypes <+: abi.parameterTypes := by
  unfold readTypes
  split
  · exact List.prefix_refl _
  · exact List.take_prefix _ _

theorem take_argumentNames (abi : Abi) :
    abi.parameterTypes.take (Inputs.argumentNames abi abi.parameterTypes.length).length = abi.readTypes := by
  unfold readTypes Inputs.argumentNames
  split
  · rw [List.length_map, List.length_range, List.take_length]
  · rfl

end Abi

section
variable {r : Leaves} {l : Layout} {c : Compiled} {call : Call} {inputs : Inputs}

/-- Arguments are values of the types of the parameters that they are read for. -/
theorem Inputs.Read.arguments_typed {abi : Abi} (read : Read abi call inputs) :
    List.Forall₂ (fun type v => Value.IsOf type v) abi.readTypes inputs.arguments := by
  have h := read.arguments
  unfold readArguments at h
  obtain ⟨data, -, h⟩ := bind_eq_ok.mp h
  split at h
  · cases h
  next length =>
    have length : data.length = abi.parameterTypes.length := not_not.mp length
    have types : ((argumentNames abi data.length).zip (abi.parameterTypes.zip data)).map (·.2.1) =
        abi.readTypes := by
      have cut := congrArg (List.map Prod.fst)
        (map_snd_zip (argumentNames abi data.length) (abi.parameterTypes.zip data))
      rw [List.map_map, List.map_take, List.map_fst_zip length.ge] at cut
      exact cut.trans (length ▸ Abi.take_argumentNames abi)
    rw [← types, List.forall₂_map_left_iff]
    exact (mapM_eq_ok.mp h).imp fun a v read =>
      Value.isOf_of_ofJson a.2.1 (Inputs.readArgument_eq_ok.mp read)

/-- The locals at the start of a run: the arguments, and nothing in all other slots. -/
theorem Machine.locals_conform_start (keys : ∀ k : Key, k.IsValid → r.key k) {types slots : List Ty}
    {arguments : List Value} (first : types <+: slots) (distinct : ∀ type ∈ types, type.Distinct)
    (typed : List.Forall₂ (fun type v => Value.IsOf type v) types arguments) :
    List.Forall₂ (fun type d => d = .null ∨ Datum.Conforms r type d) slots
      (arguments.map Value.toDatum ++
        List.replicate (slots.length - (arguments.map Value.toDatum).length) .null) := by
  obtain ⟨rest, rfl⟩ := first
  have others : (types ++ rest).length - (arguments.map Value.toDatum).length = rest.length := by
    rw [List.length_append, List.length_map, typed.length_eq, Nat.add_sub_cancel_left]
  rw [others]
  refine List.rel_append ?_ ?_
  · rw [List.forall₂_map_right_iff]
    exact ((List.forall₂_and_left ..).mpr ⟨distinct, typed⟩).imp fun type v h =>
      .inr (h.2.conforms keys h.1)
  · clear others
    induction rest with
    | nil => exact .nil
    | cons type rest ih => exact .cons (.inl rfl) ih

/-- A run on accepted inputs starts with data of their types. -/
theorem Inputs.Read.conforms_machine (read : Read c.abi call inputs) (fits : c.Fits l)
    (keys : ∀ k : Key, k.IsValid → r.key k) (code : LinkedCode) (fingerprint : String) :
    ((⟨c.abi, c.header, code, fingerprint⟩ : LinkedFunction).machine inputs).Conforms r l [] where
  stack := .nil
  locals := by
    have first := c.abi.readTypes_prefix
    have distinct : ∀ type ∈ c.abi.readTypes, type.Distinct :=
      fun type h => fits.parameter type (first.subset h)
    have start := locals_conform_start keys (first.trans fits.parameters) distinct read.arguments_typed
    rw [← fits.locals] at start
    exact start
  receiver := by
    obtain ⟨nodup, parts⟩ := Ty.distinct_struct_iff.mp fits.distinct
    obtain ⟨fields, given, typed⟩ := read.exists_receiver fits.this nodup
    refine ⟨ofMembers (Value.fieldData fields), ?_, ?_⟩
    · simp [LinkedFunction.machine, Machine.start, given]
    · rw [ofMembers_of_nodup (typed.data_names ▸ nodup)]
      exact typed.conform keys parts

/-! ## Supplied records -/

namespace LinkedFunction

theorem mem_of_recordsById {records : List SuppliedRecord} {found : List (Bytes × Datum)}
    (h : recordsById records = .ok found) {id : Bytes} {d : Datum} (here : (id, d) ∈ found) :
    ∃ r ∈ records, d = (Value.struct r.value).toDatum := by
  induction records generalizing found with
  | nil =>
    cases h
    cases here
  | cons r rest ih =>
    obtain ⟨own, -, h⟩ := bind_eq_ok.mp h
    obtain ⟨others, ho, h⟩ := bind_eq_ok.mp h
    obtain rfl := pure_eq_ok.mp h
    rcases List.mem_append.mp here with later | last
    · obtain ⟨r', hr', same⟩ := ih ho later
      exact ⟨r', List.mem_cons_of_mem _ hr', same⟩
    · cases List.mem_singleton.mp last
      exact ⟨r, List.mem_cons_self, rfl⟩

/-- What a run looks up by an id is a supplied record. -/
theorem mem_of_recordsOf {others : List (String × List SuppliedRecord)}
    {all : List (String × List (Bytes × Datum))} (h : recordsOf others = .ok all) {contract : String}
    {found : List (Bytes × Datum)} (here : (contract, found) ∈ all) {id : Bytes} {d : Datum}
    (held : (id, d) ∈ found) : ∃ records, (contract, records) ∈ others ∧
      ∃ r ∈ records, d = (Value.struct r.value).toDatum := by
  induction others generalizing all with
  | nil =>
    cases h
    cases here
  | cons p rest ih =>
    obtain ⟨name, records⟩ := p
    obtain ⟨own, ho, h⟩ := bind_eq_ok.mp h
    obtain ⟨later, hl, h⟩ := bind_eq_ok.mp h
    obtain rfl := pure_eq_ok.mp h
    rcases List.mem_cons.mp here with first | here
    · cases first
      exact ⟨records, List.mem_cons_self, mem_of_recordsById ho held⟩
    · obtain ⟨records', hm, r, hr, same⟩ := ih hl here
      exact ⟨records', List.mem_cons_of_mem _ hm, r, hr, same⟩

end LinkedFunction

theorem Surroundings.exists_of_recordOf {s : Surroundings} {contract : String} {d e : Datum}
    (h : s.recordOf contract d = .ok e) : ∃ found id, (contract, found) ∈ s.records ∧
      (id, e) ∈ found := by
  unfold recordOf at h
  split at h
  next id =>
    split at h
    next => cases h
    next => cases h
    next record _ found =>
      cases h
      cases held : s.records.lookup contract with
      | none =>
        rw [held] at found
        cases found
      | some byId =>
        rw [held] at found
        exact ⟨byId, id, mem_of_lookup held, mem_of_lookup found⟩
  next => cases h

/-- A run on accepted inputs refers to data of their types only. -/
theorem Inputs.Read.conform (read : Read c.abi call inputs) (fits : c.Fits l)
    (keys : ∀ k : Key, k.IsValid → r.key k)
    (caller : ∀ k, inputs.callerKey = some k → r.key k)
    (nobody : inputs.callerKey = none → r.absent .publicKey)
    {records : List (String × List (Bytes × Datum))}
    (found : LinkedFunction.recordsOf inputs.others = .ok records) :
    (⟨inputs.callerKey, records⟩ : Surroundings).Conform r l.schema where
  points := fun point => keys _ (.inr point)
  caller := by
    unfold Surroundings.caller
    cases known : inputs.callerKey with
    | none => exact .absent (nobody known)
    | some k => exact .publicKey (caller k known)
  records := by
    intro contract record d e known stands
    obtain ⟨byId, id, here, held⟩ := Surroundings.exists_of_recordOf stands
    obtain ⟨supplied, given, r', hr', rfl⟩ := LinkedFunction.mem_of_recordsOf found here held
    obtain ⟨type, ht, named, typed⟩ := read.exists_type given
    obtain ⟨distinct, record', known', rfl⟩ := fits.others type ht
    rw [named, known] at known'
    cases known'
    exact (Value.IsOf.struct (typed r' hr')).conforms keys distinct

/-! ## Runs -/

/-- The places of linked code have types of the values on the stack, none at the start. -/
theorem Compiled.Fits.exists_levels (fits : c.Fits l) {code : LinkedCode}
    (linked : c.code.link c.abi c.header = .ok code) : ∃ labels levels,
      Code.LevelsOf (Instruction.Typed l c.abi.returnType) c.abi c.header labels code levels ∧
        levels 0 = some [] := by
  obtain ⟨labels, lines, places, all, rfl, -⟩ := Code.link_eq_ok linked
  obtain ⟨rfl, nodup, -⟩ := Code.places_eq_ok_iff.mp places
  rw [List.append_nil] at all
  obtain ⟨front, last, written, leaves⟩ := fits.leaves
  rw [written] at all
  exact ⟨_, Code.exists_levels (written ▸ fits.typed) leaves (written ▸ nodup) all⟩

/-- Wherever a run on accepted inputs comes, its data have their types, and they have them still when it
leaves from there. -/
theorem Compiled.Fits.conforms (fits : c.Fits l) {code : LinkedCode}
    (linked : c.code.link c.abi c.header = .ok code) {s : Surroundings}
    (surroundings : s.Conform r l.schema) {receiver : Datum} {locals : List Datum}
    (start : (Machine.start receiver locals).Conforms r l []) {n : Nat} {m : Machine}
    (reached : Reaches code s (Machine.start receiver locals) n m)
    (suits : ∀ k a j, k < n → Reaches code s (Machine.start receiver locals) k a →
      code[a.place]? = some j → Suits r l j a) :
    (∃ types, m.Conforms r l types) ∧
      ∀ {departure m'}, step code s m = some (.ok (some departure), m') →
        ∃ types, Preserves r l c.abi.returnType types (.ok (some departure), m') := by
  obtain ⟨labels, levels, each, first⟩ := fits.exists_levels linked
  have conforms := ConformsAt.reaches each surroundings ⟨[], first, start⟩ reached suits
  obtain ⟨types, -, held⟩ := id conforms
  exact ⟨⟨types, held⟩, fun hs => conforms.departs each surroundings hs⟩

end

def Leaves.free : Leaves := ⟨fun _ => True, fun _ => True⟩

/-- Whatever is compiled and whatever inputs are accepted, in each state that the run comes to each field
of the receiver, each local that is set and a value that the function leaves with there have their
declared types, if all lists and texts on the stack were short before. -/
theorem run_keeps_types {source : String} {program : Program} {contract function : String} {c : Compiled}
    (hp : Program.read source = .ok program) (hc : program.compile contract function = .ok c)
    {code : LinkedCode} (linked : c.code.link c.abi c.header = .ok code) {call : Call} {inputs : Inputs}
    (accepted : Inputs.ofCall c.abi call = .ok inputs) {records : List (String × List (Bytes × Datum))}
    (found : LinkedFunction.recordsOf inputs.others = .ok records) {fingerprint : String} {n : Nat}
    {m : Machine}
    (reached : Reaches code ⟨inputs.callerKey, records⟩
      ((⟨c.abi, c.header, code, fingerprint⟩ : LinkedFunction).machine inputs) n m)
    (short : ∀ k a, k < n → Reaches code ⟨inputs.callerKey, records⟩
      ((⟨c.abi, c.header, code, fingerprint⟩ : LinkedFunction).machine inputs) k a → a.IsShort) :
    ∃ l, program.layout contract function = .ok l ∧ c.abi.thisType = some l.this ∧
      (∃ fields, m.receiver = .record fields ∧ Datum.FieldsConform .free l.this.fields fields) ∧
      List.Forall₂ (Datum.Conforms .free) l.slots m.locals ∧
      ∀ d m', step code ⟨inputs.callerKey, records⟩ m = some (.ok (some (.value d)), m') →
        ∃ type, c.abi.returnType = some type ∧ d.Conforms .free type := by
  obtain ⟨l, layout, fits⟩ := Program.fits_of_compile hp hc
  have read := Inputs.read_of_ofCall accepted
  obtain ⟨⟨types, held⟩, departs⟩ := fits.conforms linked
    (read.conform fits (r := .free) (fun _ _ => trivial) (fun _ _ => trivial) (fun _ => trivial) found)
    (read.conforms_machine fits (fun _ _ => trivial) code fingerprint) reached
    fun k a j early ha _ => ⟨fun _ => short k a early ha, fun _ _ _ _ _ => trivial⟩
  refine ⟨l, layout, fits.this, held.receiver, held.locals.imp fun type d h => ?_, fun d m' hs => ?_⟩
  · rcases h with rfl | conforms
    · exact .absent trivial
    · exact conforms
  · obtain ⟨-, -, value⟩ := departs hs
    exact value

def paySource : String :=
  "contract Bank \x7b id: string; rate: u32; \x7d contract Account \x7b bank: Bank; past: u32[]; " ++
  "@call pay(k: u32): u32 \x7b let fee = k * this.bank.rate; this.past.push(fee); return fee; \x7d \x7d"

def payCall : Call :=
  { Call.empty with
    receiver := .record [("bank", .text "b"), ("past", .list [.integer 5])]
    arguments := .list [.integer 3]
    others := .record [("Bank", .list [.record [("id", .text "b"), ("rate", .integer 2)]])] }

/-- A run that follows a reference and adds to a list, up to where it leaves with a value. -/
theorem pay_keeps_types : ∃ program c code inputs records m,
    Program.read paySource = .ok program ∧ program.compile "Account" "pay" = .ok c ∧
    c.code.link c.abi c.header = .ok code ∧ Inputs.ofCall c.abi payCall = .ok inputs ∧
    LinkedFunction.recordsOf inputs.others = .ok records ∧
    Reaches code ⟨inputs.callerKey, records⟩
      ((⟨c.abi, c.header, code, ""⟩ : LinkedFunction).machine inputs) 11 m ∧
    ∃ l, program.layout "Account" "pay" = .ok l ∧ c.abi.thisType = some l.this ∧
      (∃ fields, m.receiver = .record fields ∧ Datum.FieldsConform .free l.this.fields fields) ∧
      List.Forall₂ (Datum.Conforms .free) l.slots m.locals ∧
      ∀ d m', step code ⟨inputs.callerKey, records⟩ m = some (.ok (some (.value d)), m') →
        ∃ type, c.abi.returnType = some type ∧ d.Conforms .free type := by
  have runs : (do
      let program ← (Program.read paySource).toOption
      let c ← (program.compile "Account" "pay").toOption
      let code ← (c.code.link c.abi c.header).toOption
      let inputs ← (Inputs.ofCall c.abi payCall).toOption
      let records ← (LinkedFunction.recordsOf inputs.others).toOption
      let start := (⟨c.abi, c.header, code, ""⟩ : LinkedFunction).machine inputs
      let m ← after code ⟨inputs.callerKey, records⟩ 11 start
      return (List.range 11).all fun k =>
        (after code ⟨inputs.callerKey, records⟩ k start).all fun a => decide a.IsShort) = some true := by
    decide +kernel
  simp only [Option.bind_eq_bind, Option.bind_eq_some_iff, toOption_eq_some, Option.pure_def,
    Option.some.injEq] at runs
  obtain ⟨program, hp, c, hc, code, linked, inputs, accepted, records, found, m, reached, short⟩ := runs
  have reached := reaches_iff_after.mpr reached
  refine ⟨program, c, code, inputs, records, m, hp, hc, linked, accepted, found, reached,
    run_keeps_types hp hc linked accepted found reached fun k a early ha => ?_⟩
  have all := List.all_eq_true.mp short k (List.mem_range.mpr early)
  rw [reaches_iff_after.mp ha] at all
  exact of_decide_eq_true all

end Covenant
