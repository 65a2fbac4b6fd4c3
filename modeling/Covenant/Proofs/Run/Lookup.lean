import Covenant.Proofs.Run.Order
/-!
Supplied records are looked up by their ids, not by their places.

* `Program.single_of_compile`, `Program.plain_of_compile`: the places where a compiled function has records
  read are apart from each other;
* `Inputs.Read.machine_remarked`: a run starts with no marks of places where records are read;
* `records_are_looked_up_by_id`: supplied records are accepted in any order, and a run yields the same in any
  order that keeps for each id the last record with it;
* `last_record_is_looked_up`: of two records with one id the last one counts.
-/

namespace Covenant

/-! ## Compiled functions -/

/-- The records that a compiled function looks up are records of its program. -/
theorem Program.exists_record_of_compile {source : String} {program : Program} {contract function : String}
    {c : Compiled} (hp : Program.read source = .ok program)
    (hc : program.compile contract function = .ok c) : ∃ schema : Schema,
      ∀ type ∈ c.abi.otherTypes, ∃ r, schema.find? type.name = some r ∧ r.type = type ∧
        Lexeme.IsName type.name.toList := by
  have named := Program.named_of_read hp
  obtain ⟨schema, record, hs, describes, -⟩ := Program.describes_of_compile hc
  refine ⟨schema, fun type ht => ?_⟩
  obtain ⟨r, known, rfl⟩ := describes.known ht
  exact ⟨r, known, rfl, (Schema.named_of_ofProgram named hs (Schema.mem_of_find? known).1).1.name⟩

theorem Program.single_of_compile {source : String} {program : Program} {contract function : String}
    {c : Compiled} (hp : Program.read source = .ok program)
    (hc : program.compile contract function = .ok c) : c.abi.Single := by
  obtain ⟨schema, each⟩ := Program.exists_record_of_compile hp hc
  intro type ht type' ht' same
  obtain ⟨r, known, rfl, -⟩ := each type ht
  obtain ⟨r', known', rfl, -⟩ := each type' ht'
  rw [same] at known
  cases known.symm.trans known'
  rfl

theorem Program.plain_of_compile {source : String} {program : Program} {contract function : String}
    {c : Compiled} (hp : Program.read source = .ok program)
    (hc : program.compile contract function = .ok c) :
    ∀ type ∈ c.abi.otherTypes, '[' ∉ type.name.toList := by
  obtain ⟨schema, each⟩ := Program.exists_record_of_compile hp hc
  intro type ht here
  obtain ⟨-, -, -, name⟩ := each type ht
  exact absurd (name.2 _ here) (by decide)

/-! ## Calls -/

/-- A call as it comes: marks of places are made only where its data are read. -/
structure Call.Fresh (call : Call) : Prop where
  receiver : call.receiver.Fresh
  arguments : call.arguments.Fresh
  others : call.others.Fresh

namespace Inputs

theorem Shuffled.fresh {d d' : Datum} (h : Shuffled d d') (fresh : d.Fresh) : d'.Fresh := by
  rcases h with rfl | ⟨items, items', rfl, rfl, perm⟩
  · exact fresh
  · rw [Datum.Fresh, Datum.each_list] at fresh ⊢
    exact fun d hd => fresh d (perm.symm.subset hd)

theorem Reordered.fresh {others others' : Datum} (h : Reordered others others') (fresh : others.Fresh) :
    others'.Fresh := by
  rcases h with rfl | ⟨lists, lists', rfl, rfl, each⟩
  · exact fresh
  · rw [Datum.Fresh, Datum.each_record] at fresh ⊢
    intro m' hm'
    obtain ⟨m, hm, -, shuffled⟩ := exists_of_forall₂ each hm'
    exact shuffled.fresh (fresh m hm)

/-- A replacement that leaves alone the data of a call and the places where its receiver and arguments are
read leaves alone what a run starts with. -/
theorem Read.machine_remarked {abi : Abi} {call : Call} {inputs : Inputs} (h : Read abi call inputs)
    {g : Origin → Origin} (receiver : Origin.Moves g "this" "this")
    (arguments : Origin.Moves g "args." "args.") (fixed : call.receiver.remarked g = call.receiver)
    (fixed' : call.arguments.remarked g = call.arguments) (f : LinkedFunction) :
    (f.machine inputs).remarked g = f.machine inputs := by
  have each : ∀ d ∈ (f.machine inputs).locals, d.remarked g = d := by
    intro d hd
    rcases List.mem_append.mp hd with argument | unset
    · obtain ⟨v, hv, rfl⟩ := List.mem_map.mp argument
      rw [← Value.toDatum_remarked, h.arguments_remarked arguments fixed' v hv]
    · obtain rfl := List.eq_of_mem_replicate unset
      rfl
  have locals := (List.map_congr_left each).trans (List.map_id' _)
  have this : (f.machine inputs).receiver.remarked g = (f.machine inputs).receiver := by
    unfold LinkedFunction.machine Machine.start
    cases hr : inputs.receiver with
    | none => rfl
    | some fields =>
      exact (Value.toDatum_remarked (.struct fields)).symm.trans
        (congrArg Value.toDatum (congrArg Value.struct (h.receiver_remarked receiver fixed hr)))
  rw [Machine.remarked, locals, this]
  rfl

end Inputs

/-! ## Runs -/

/-- Supplied records are looked up by their ids, not by their places. A call with the records of each list
in another order is accepted if and only if it is accepted as it is. If moreover for each id the last record
with it is the same, as in any order when no two have the same, then all runs yield the same receiver, result
and commitments or the same error, but for the marks that tell apart results that are no numbers. The ids
are texts that UTF-8 can encode, so that they have bytes to be looked up by. -/
theorem records_are_looked_up_by_id {source : String} {program : Program} {contract function : String}
    {c : Compiled} {code : LinkedCode} (hp : Program.read source = .ok program)
    (hc : program.compile contract function = .ok c) (linked : c.code.link c.abi c.header = .ok code)
    {call : Call} (fresh : call.Fresh) {others' : Datum} (reordered : Inputs.Reordered call.others others') :
    ((∃ inputs, Inputs.ofCall c.abi call = .ok inputs) ↔
      ∃ inputs, Inputs.ofCall c.abi { call with others := others' } = .ok inputs) ∧
    (Inputs.HasOwnIds c.abi call.others → Inputs.KeepsLast c.abi call.others others') ∧
    ∀ inputs inputs', Inputs.ofCall c.abi call = .ok inputs →
      Inputs.ofCall c.abi { call with others := others' } = .ok inputs' →
      Inputs.KeepsLast c.abi call.others others' → ∃ g : Origin → Origin, g.Injective ∧
        ∀ fingerprint limit,
          LinkedFunction.run ⟨c.abi, c.header, code, fingerprint⟩ inputs' limit =
            LinkedFunction.remarkedOutcome g
              (LinkedFunction.run ⟨c.abi, c.header, code, fingerprint⟩ inputs limit) := by
  have single := Program.single_of_compile hp hc
  have unmoved := fresh.others.unmoved
  have unmoved' := (reordered.fresh fresh.others).unmoved
  refine ⟨⟨?_, ?_⟩, fun own => own.keepsLast reordered, ?_⟩
  · rintro ⟨inputs, accepted⟩
    obtain ⟨read', -, again⟩ := reordered.exists_ofCall unmoved single accepted
    exact ⟨_, again⟩
  · rintro ⟨inputs, accepted⟩
    have back : Inputs.Reordered { call with others := others' }.others call.others := reordered.symm
    obtain ⟨read', -, again⟩ := back.exists_ofCall unmoved' single accepted
    exact ⟨_, again⟩
  · intro inputs inputs' accepted accepted' keeps
    obtain ⟨read', -, again⟩ := reordered.exists_ofCall unmoved single accepted
    -- the inputs differ in the records only
    have other : inputs' = { inputs with others := read' } := Except.ok.inj (accepted'.symm.trans again)
    have key : inputs'.callerKey = inputs.callerKey := by rw [other]
    have salts : inputs'.salts = inputs.salts := by rw [other]
    have read := Inputs.read_of_ofCall accepted
    have reread := Inputs.read_of_ofCall accepted'
    obtain ⟨g, recasts, places, receiver, arguments, lookups⟩ := reordered.exists_moved unmoved single
      (Program.plain_of_compile hp hc) read.others reread.others keeps
    refine ⟨g, recasts.injective, fun fingerprint limit => ?_⟩
    rcases reordered.tables_cases unmoved unmoved' single read.others reread.others lookups key with
      ⟨fails, fails'⟩ | ⟨all, all', stand, stand', same⟩
    · -- an id with parts stops both runs before they start
      simp only [LinkedFunction.run, read.described, reread.described, fails, fails', ne_eq,
        not_true_eq_false, if_false]
      rfl
    · obtain ⟨l, proper⟩ := Program.proper_of_compile hp hc
      have start := read.machine_remarked receiver arguments (fresh.receiver.remarked places)
        (fresh.arguments.remarked places) ⟨c.abi, c.header, code, fingerprint⟩
      refine LinkedFunction.run_remarked recasts (LinkedCode.unmarked_of_link proper linked) read.described
        reread.described salts stand stand' same ?_ limit
      rw [start, other]
      rfl

/-! ## Two records -/

/-- A function that reads a field of a supplied record. -/
def rateSource : String :=
  "contract Bank \x7b id: string; rate: u32; \x7d " ++
  "contract Account \x7b bank: Bank; @call quote(): u32 \x7b return this.bank.rate; \x7d \x7d"

def bankDatum (id : String) (rate : Int) : Datum := .record [("id", .text id), ("rate", .integer rate)]

/-- A call of the function, with records of banks. -/
def rateCall (banks : List Datum) : Call :=
  { Call.empty with
    receiver := .record [("bank", .text "b")]
    others := .record [("Bank", .list banks)] }

theorem rateCall_fresh {id id' : String} {rate rate' : Int} :
    (rateCall [bankDatum id rate, bankDatum id' rate']).Fresh :=
  ⟨by simp [rateCall, Datum.Fresh], by simp [rateCall, Call.empty, Datum.Fresh],
    by simp [rateCall, bankDatum, Datum.Fresh]⟩

theorem rateCall_reordered (d d' : Datum) :
    Inputs.Reordered (rateCall [d, d']).others (rateCall [d', d]).others :=
  .inr ⟨_, _, rfl, rfl, .cons ⟨rfl, .inr ⟨_, _, rfl, rfl, .swap d' d []⟩⟩ .nil⟩

/-- Records of different banks are looked up in both orders. -/
theorem banks_are_looked_up_by_id : ∃ program c code inputs inputs',
    Program.read rateSource = .ok program ∧ program.compile "Account" "quote" = .ok c ∧
    c.code.link c.abi c.header = .ok code ∧
    (rateCall [bankDatum "b" 3, bankDatum "d" 4]).Fresh ∧
    Inputs.Reordered (rateCall [bankDatum "b" 3, bankDatum "d" 4]).others
      (rateCall [bankDatum "d" 4, bankDatum "b" 3]).others ∧
    Inputs.HasOwnIds c.abi (rateCall [bankDatum "b" 3, bankDatum "d" 4]).others ∧
    Inputs.ofCall c.abi (rateCall [bankDatum "b" 3, bankDatum "d" 4]) = .ok inputs ∧
    Inputs.ofCall c.abi (rateCall [bankDatum "d" 4, bankDatum "b" 3]) = .ok inputs' ∧
    ∃ g : Origin → Origin, g.Injective ∧ ∀ fingerprint limit,
      LinkedFunction.run ⟨c.abi, c.header, code, fingerprint⟩ inputs' limit =
        LinkedFunction.remarkedOutcome g
          (LinkedFunction.run ⟨c.abi, c.header, code, fingerprint⟩ inputs limit) := by
  have runs : (do
      let program ← (Program.read rateSource).toOption
      let c ← (program.compile "Account" "quote").toOption
      let code ← (c.code.link c.abi c.header).toOption
      let inputs ← (Inputs.ofCall c.abi (rateCall [bankDatum "b" 3, bankDatum "d" 4])).toOption
      let inputs' ← (Inputs.ofCall c.abi (rateCall [bankDatum "d" 4, bankDatum "b" 3])).toOption
      return c.abi.otherTypes.all fun type =>
        type.name == "Bank" && decide ([bankDatum "b" 3, bankDatum "d" 4].map
          (Inputs.givenId type)).Nodup) = some true := by decide +kernel
  simp only [Option.bind_eq_bind, Option.bind_eq_some_iff, toOption_eq_some, Option.pure_def,
    Option.some.injEq, List.all_eq_true, Bool.and_eq_true, beq_iff_eq, decide_eq_true_eq] at runs
  obtain ⟨program, hp, c, hc, code, linked, inputs, accepted, inputs', accepted', each⟩ := runs
  have reordered := rateCall_reordered (bankDatum "b" 3) (bankDatum "d" 4)
  have own : Inputs.HasOwnIds c.abi (rateCall [bankDatum "b" 3, bankDatum "d" 4]).others := by
    intro type ht data hd
    obtain ⟨named, nodup⟩ := each type ht
    rw [named] at hd
    cases hd
    exact nodup
  obtain ⟨-, keeps, runs⟩ := records_are_looked_up_by_id hp hc linked rateCall_fresh reordered
  exact ⟨program, c, code, inputs, inputs', hp, hc, linked, rateCall_fresh, reordered, own, accepted,
    accepted', runs inputs inputs' accepted accepted' (keeps own)⟩

def LinkedFunction.resultInteger? : Except Error Output → Option Int
  | .ok output =>
    match output.result with
    | some (.scalar _ (.integer n)) => some n
    | _ => none
  | .error _ => none

theorem LinkedFunction.resultInteger?_remarked (g : Origin → Origin) (outcome : Except Error Output) :
    resultInteger? (remarkedOutcome g outcome) = resultInteger? outcome := by
  cases outcome with
  | error => rfl
  | ok output =>
    obtain ⟨receiver, result, hashes, readAuth, steps⟩ := output
    cases result with
    | none => rfl
    | some v =>
      cases v with
      | scalar p d => cases d <;> simp [remarkedOutcome, Output.remarked, resultInteger?, Value.remarked,
          Datum.remarked]
      | _ => rfl

/-- Of two records with one id the last one is looked up, so that their order is seen in the result. -/
theorem last_record_is_looked_up : ∃ program c code inputs inputs',
    Program.read rateSource = .ok program ∧ program.compile "Account" "quote" = .ok c ∧
    c.code.link c.abi c.header = .ok code ∧
    Inputs.Reordered (rateCall [bankDatum "b" 3, bankDatum "b" 4]).others
      (rateCall [bankDatum "b" 4, bankDatum "b" 3]).others ∧
    Inputs.ofCall c.abi (rateCall [bankDatum "b" 3, bankDatum "b" 4]) = .ok inputs ∧
    Inputs.ofCall c.abi (rateCall [bankDatum "b" 4, bankDatum "b" 3]) = .ok inputs' ∧
    ∀ g : Origin → Origin, LinkedFunction.run ⟨c.abi, c.header, code, ""⟩ inputs' 10 ≠
      LinkedFunction.remarkedOutcome g (LinkedFunction.run ⟨c.abi, c.header, code, ""⟩ inputs 10) := by
  have runs : (do
      let program ← (Program.read rateSource).toOption
      let c ← (program.compile "Account" "quote").toOption
      let code ← (c.code.link c.abi c.header).toOption
      let inputs ← (Inputs.ofCall c.abi (rateCall [bankDatum "b" 3, bankDatum "b" 4])).toOption
      let inputs' ← (Inputs.ofCall c.abi (rateCall [bankDatum "b" 4, bankDatum "b" 3])).toOption
      let f : LinkedFunction := ⟨c.abi, c.header, code, ""⟩
      return LinkedFunction.resultInteger? (f.run inputs 10) == some 4 &&
        LinkedFunction.resultInteger? (f.run inputs' 10) == some 3) = some true := by decide +kernel
  simp only [Option.bind_eq_bind, Option.bind_eq_some_iff, toOption_eq_some, Option.pure_def,
    Option.some.injEq, Bool.and_eq_true, beq_iff_eq] at runs
  obtain ⟨program, hp, c, hc, code, linked, inputs, accepted, inputs', accepted', result, result'⟩ := runs
  refine ⟨program, c, code, inputs, inputs', hp, hc, linked, rateCall_reordered _ _, accepted, accepted',
    fun g same => ?_⟩
  have integers := congrArg LinkedFunction.resultInteger? same
  rw [LinkedFunction.resultInteger?_remarked, result, result'] at integers
  cases integers

end Covenant
