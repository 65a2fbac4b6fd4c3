import Covenant.Proofs.Run.Conformance
import Covenant.Proofs.Value.RoundTrip
import Mathlib.Logic.Relation
/-!
What a run yields, and the record that it leaves to later calls.

* `LinkedFunction.Regular`, `LinkedFunction.Ordinary`: a run that reads no local without a value, and counts
  the parts of short lists and texts only, called with a key that data can give;
* `Compiled.Fits.exists_output`: the receiver and the result that such a run yields are values of their
  types;
* `Session.Continues`, `Session.Holds`: calls of a session, each of which leaves a record of the type of
  the receiver;
* `left_record_is_read`: this record is read as it was, also in any later call of a session;
* `unset_local_is_left`: a local that a branch has not set is left in a record that the next call refuses.
-/

namespace Covenant

open Machine
open Value (ofJson)

/-! ## Outputs -/

/-- The slot without a value that the next instruction reads, if it is such a one. -/
def Machine.unsetSlot? (code : LinkedCode) (m : Machine) : Option Nat :=
  match code[m.place]? with
  | some (.loadLocal slot) =>
    match m.locals[slot]? with
    | some .null => some slot
    | _ => none
  | _ => none

theorem Machine.unsetSlot?_eq {code : LinkedCode} {m : Machine} {slot : Nat}
    (load : code[m.place]? = some (.loadLocal slot)) (unset : m.locals[slot]? = some .null) :
    m.unsetSlot? code = some slot := by
  unfold unsetSlot?
  rw [load]
  dsimp only
  rw [unset]

namespace LinkedFunction

/-- A run on inputs that counts the parts of short lists and texts only, and reads no local without a value
but one of the type of keys. -/
structure Regular (f : LinkedFunction) (slots : List Ty) (inputs : Inputs) : Prop where
  short : ∀ records n m j, recordsOf inputs.others = .ok records →
    Reaches f.code ⟨inputs.callerKey, records⟩ (f.machine inputs) n m →
    f.code[m.place]? = some j → j.counts = true → m.IsShort
  set : ∀ records n m slot, recordsOf inputs.others = .ok records →
    Reaches f.code ⟨inputs.callerKey, records⟩ (f.machine inputs) n m →
    m.unsetSlot? f.code = some slot → slots[slot]? = some .publicKey

/-- Such a run, called with a key that data can give. -/
structure Ordinary (f : LinkedFunction) (slots : List Ty) (inputs : Inputs) : Prop
    extends f.Regular slots inputs where
  caller : ∀ k, inputs.callerKey = some k → k.IsValid

/-- In such a run each instruction is suited where keys may be absent. -/
theorem Regular.suits {f : LinkedFunction} {l : Layout} {inputs : Inputs}
    (regular : f.Regular l.slots inputs) {r : Leaves} (keys : r.absent .publicKey)
    {records : List (String × List (Bytes × Datum))} (found : recordsOf inputs.others = .ok records)
    {n : Nat} {m : Machine} (reached : Reaches f.code ⟨inputs.callerKey, records⟩ (f.machine inputs) n m)
    {j : Instruction Nat} (here : f.code[m.place]? = some j) : Suits r l j m where
  short := regular.short records n m j found reached here
  set := by
    rintro slot type rfl held unset
    have known := regular.set records n m slot found reached (unsetSlot?_eq here unset)
    cases held.symm.trans known
    exact keys

end LinkedFunction

/-- The values that a run yields are made of the receiver and of what the function leaves with. -/
theorem LinkedFunction.run_eq_ok {f : LinkedFunction} {inputs : Inputs} {limit : Nat} {output : Output}
    (h : f.run inputs limit = .ok output) : ∃ records departure m,
      recordsOf inputs.others = .ok records ∧
      Machine.run f.code ⟨inputs.callerKey, records⟩ limit (f.machine inputs) = ⟨.ok departure, m⟩ ∧
      f.output inputs departure m = .ok output := by
  unfold run at h
  split at h
  · cases h
  · cases found : recordsOf inputs.others with
    | error why =>
      rw [found] at h
      cases h
    | ok records =>
      rw [found] at h
      dsimp only at h
      cases ended : Machine.run f.code ⟨inputs.callerKey, records⟩ limit (f.machine inputs) with
      | mk outcome m =>
        rw [ended] at h
        cases outcome with
        | error failure => cases h
        | ok departure =>
          dsimp only at h
          cases made : f.output inputs departure m with
          | error why =>
            rw [made] at h
            cases h
          | ok output' =>
            rw [made] at h
            cases h
            exact ⟨records, departure, m, rfl, ended, made⟩

/-- A run on accepted inputs that is an ordinary one yields values of the types of the receiver and of the
result. -/
theorem Compiled.Fits.exists_output {l : Layout} {c : Compiled} {call : Call} {inputs : Inputs}
    (fits : c.Fits l) {code : LinkedCode} (linked : c.code.link c.abi c.header = .ok code)
    (read : Inputs.Read c.abi call inputs) {fingerprint : String}
    (ordinary : (⟨c.abi, c.header, code, fingerprint⟩ : LinkedFunction).Ordinary l.slots inputs)
    {limit : Nat} {output : Output}
    (ran : (⟨c.abi, c.header, code, fingerprint⟩ : LinkedFunction).run inputs limit = .ok output) :
    (∃ v, output.receiver = some v ∧ v.IsOf l.this.toTy) ∧
      Option.Rel (fun type v => Value.IsOf type v) c.abi.returnType output.result := by
  obtain ⟨records, departure, m, found, ended, made⟩ := LinkedFunction.run_eq_ok ran
  obtain ⟨n, a, reached, hs⟩ := exists_step_of_departs ended
  have caller : ∀ k, inputs.callerKey = some k → Leaves.strict.key k := ordinary.caller
  obtain ⟨-, departs⟩ := fits.conforms linked
    (read.conform fits (r := .strict) (fun _ h => h) caller (fun _ => rfl) found)
    (read.conforms_machine fits (fun _ h => h) code fingerprint) reached
    fun _ _ _ _ hb here => ordinary.suits rfl found hb here
  obtain ⟨types, departs⟩ := departs hs
  have held : m.Conforms .strict l types := by
    cases departure <;> exact departs.1
  obtain ⟨fields, receiver, all⟩ := held.receiver
  obtain ⟨v, hv, -, typed⟩ := Value.exists_ofDatum (fun _ h => h) (.struct all) fits.distinct
  have typed := typed fun _ h => h
  unfold LinkedFunction.output at made
  obtain ⟨receiver', hr, made⟩ := bind_eq_ok.mp made
  obtain ⟨result, hres, made⟩ := bind_eq_ok.mp made
  obtain ⟨hashes, -, made⟩ := bind_eq_ok.mp made
  obtain rfl := pure_eq_ok.mp made
  constructor
  · rw [fits.this, receiver] at hr
    rcases optionMapM_eq_ok.mp hr with ⟨none, -⟩ | ⟨type, v', same, rfl, hv'⟩
    · cases none
    · cases same
      cases hv.symm.trans hv'
      exact ⟨v, rfl, typed⟩
  · unfold LinkedFunction.resultValue at hres
    dsimp only at hres ⊢
    cases returns : c.abi.returnType with
    | none =>
      rw [returns] at hres
      cases hres
      exact .none
    | some type =>
      rw [returns] at hres departs
      obtain ⟨v, hv, hres⟩ := bind_eq_ok.mp hres
      obtain rfl := pure_eq_ok.mp hres
      cases departure with
      | plain => cases departs.2
      | value d =>
        obtain ⟨-, type', same, conforms⟩ := departs
        cases same
        obtain ⟨w, hw, -, typed⟩ := Value.exists_ofDatum (fun _ h => h) conforms (fits.result type returns)
        cases hw.symm.trans hv
        exact .some (typed fun _ h => h)

/-! ## Sessions -/

/-- All functions of a record are compiled against its type. -/
theorem Program.this_of_layout {program : Program} {contract function other : String} {l l' : Layout}
    (h : program.layout contract function = .ok l) (h' : program.layout contract other = .ok l') :
    l'.this = l.this := by
  have this : ∀ {function l}, program.layout contract function = .ok l → ∃ schema record,
      Schema.ofProgram program = .ok schema ∧ schema.record contract = .ok record ∧
        l.this = record.type := by
    intro function l h
    obtain ⟨schema, hs, h⟩ := bind_eq_ok.mp h
    obtain ⟨record, hr, h⟩ := bind_eq_ok.mp h
    refine ⟨schema, record, hs, hr, ?_⟩
    split at h
    · obtain rfl := pure_eq_ok.mp h
      rfl
    · cases hd : record.function? function with
      | none =>
        rw [hd] at h
        cases h
      | some declaration =>
        rw [hd] at h
        obtain ⟨f, -, h⟩ := bind_eq_ok.mp h
        obtain rfl := pure_eq_ok.mp h
        rfl
  obtain ⟨schema, record, hs, hr, same⟩ := this h
  obtain ⟨schema', record', hs', hr', same'⟩ := this h'
  cases hs.symm.trans hs'
  cases hr.symm.trans hr'
  rw [same, same']

namespace Session

/-- One call of a session: it fails and the receiver stays as it was, or it succeeds on a function of the
contract, in an ordinary run, and leaves what it yields. -/
inductive Continues (program : Program) (contract : String) : Session → Session → Prop
  | fails (s : Session) : Continues program contract s ⟨s.receiver, s.calls + 1⟩
  | succeeds {s : Session} {function fingerprint : String} {c : Compiled} {l : Layout} {code : LinkedCode}
      {call : Call} {inputs : Inputs} {limit : Nat} {output : Output} {v : Value} {j : Datum}
      (compiled : program.compile contract function = .ok c)
      (linked : c.code.link c.abi c.header = .ok code)
      (accepted : Inputs.ofCall c.abi { call with receiver := s.receiver } = .ok inputs)
      (layout : program.layout contract function = .ok l)
      (ordinary : (⟨c.abi, c.header, code, fingerprint⟩ : LinkedFunction).Ordinary l.slots inputs)
      (ran : (⟨c.abi, c.header, code, fingerprint⟩ : LinkedFunction).run inputs limit = .ok output)
      (left : output.receiver = some v) (written : v.toJson = .ok j) :
      Continues program contract s ⟨carried s.calls j, s.calls + 1⟩

/-- A session with a record that a call has left. -/
def Holds (type : RecordType) (s : Session) : Prop :=
  ∃ (v : Value) (j : Datum) (call : Nat), v.IsOf type.toTy ∧ v.toJson = .ok j ∧
    s.receiver = carried call j

variable {program : Program} {contract source : String} {type : RecordType} {s s' : Session}

/-- Calls leave records of the type of the receiver. -/
theorem Holds.continues (hp : Program.read source = .ok program) {function : String} {l : Layout}
    (layout : program.layout contract function = .ok l) (h : s.Holds l.this)
    (next : Continues program contract s s') : s'.Holds l.this := by
  cases next with
  | fails => exact h
  | succeeds compiled linked accepted layout' ordinary ran left written =>
    obtain ⟨l', hl, fits⟩ := Program.fits_of_compile hp compiled
    cases layout'.symm.trans hl
    obtain ⟨⟨v, yields, typed⟩, -⟩ := fits.exists_output linked (Inputs.read_of_ofCall accepted) ordinary ran
    cases left.symm.trans yields
    exact ⟨_, _, _, Program.this_of_layout layout layout' ▸ typed, written, rfl⟩

/-- Such a record is read. -/
theorem Holds.exists_receiver (h : s.Holds type) (distinct : type.toTy.Distinct) (abi : Abi) :
    ∃ fields, Inputs.readReceiver abi type s.receiver = .ok fields := by
  obtain ⟨v, j, call, typed, written, same⟩ := h
  obtain ⟨j', written', read⟩ := typed.exists_json (remarks_carried call) distinct
  cases written.symm.trans written'
  obtain ⟨v', hv, -⟩ := read "this"
  rw [← same] at hv
  obtain ⟨members, hm, hv⟩ := bind_eq_ok.mp hv
  obtain ⟨fields, hf, hv⟩ := bind_eq_ok.mp hv
  have record : Inputs.readRecord type "this" s.receiver = .ok fields := by
    rw [Inputs.readRecord]
    exact bind_eq_ok.mpr ⟨members, hm, hf⟩
  unfold Inputs.readReceiver
  dsimp only
  split
  · exact ⟨_, rfl⟩
  · rw [record]
    exact ⟨_, rfl⟩

end Session

/-- An ordinary run of a compiled function on accepted inputs yields values of the types of the receiver
and of the result. The receiver is written as JSON data that give it again, but for the marks of parts
that are no numbers; and in a session, after any calls, these data are still read as the receiver of any
function of the contract, or those that a later call has left. -/
theorem left_record_is_read {source : String} {program : Program} {contract function : String}
    {c : Compiled} (hp : Program.read source = .ok program)
    (hc : program.compile contract function = .ok c) {code : LinkedCode}
    (linked : c.code.link c.abi c.header = .ok code) {call : Call} {inputs : Inputs}
    (accepted : Inputs.ofCall c.abi call = .ok inputs) {l : Layout}
    (layout : program.layout contract function = .ok l) {fingerprint : String}
    (ordinary : (⟨c.abi, c.header, code, fingerprint⟩ : LinkedFunction).Ordinary l.slots inputs)
    {limit : Nat} {output : Output}
    (ran : (⟨c.abi, c.header, code, fingerprint⟩ : LinkedFunction).run inputs limit = .ok output) :
    c.abi.thisType = some l.this ∧
      Option.Rel (fun type v => Value.IsOf type v) c.abi.returnType output.result ∧
      ∃ v, output.receiver = some v ∧ v.IsOf l.this.toTy ∧ ∃ j, v.toJson = .ok j ∧
        (∀ path, ∃ v', ofJson path l.this.toTy j = .ok v' ∧ v'.unmarked = v.unmarked) ∧
        ∀ number s, Relation.ReflTransGen (Session.Continues program contract)
            ⟨Session.carried number j, number + 1⟩ s →
          ∀ later c', program.compile contract later = .ok c' → c'.abi.thisType = some l.this ∧
            ∃ fields, Inputs.readReceiver c'.abi l.this s.receiver = .ok fields := by
  obtain ⟨l', hl, fits⟩ := Program.fits_of_compile hp hc
  cases layout.symm.trans hl
  obtain ⟨⟨v, left, typed⟩, result⟩ :=
    fits.exists_output linked (Inputs.read_of_ofCall accepted) ordinary ran
  obtain ⟨j, written, read⟩ := typed.exists_json Datum.remarks_id fits.distinct
  refine ⟨fits.this, result, v, left, typed, j, written, read, fun number s calls later c' compiled => ?_⟩
  have holds : s.Holds l.this := by
    induction calls with
    | refl => exact ⟨v, j, number, typed, written, rfl⟩
    | tail _ next ih => exact ih.continues hp layout next
  obtain ⟨l', layout', fits'⟩ := Program.fits_of_compile hp compiled
  rw [← Program.this_of_layout layout layout']
  exact ⟨fits'.this, Program.this_of_layout layout layout' ▸ holds.exists_receiver fits.distinct c'.abi⟩

/-- A run that follows a reference and adds to a list leaves such a record. -/
theorem pay_leaves_record : ∃ program c code inputs l output,
    Program.read paySource = .ok program ∧ program.compile "Account" "pay" = .ok c ∧
    c.code.link c.abi c.header = .ok code ∧ Inputs.ofCall c.abi payCall = .ok inputs ∧
    program.layout "Account" "pay" = .ok l ∧
    (⟨c.abi, c.header, code, ""⟩ : LinkedFunction).run inputs 100 = .ok output ∧
    ∃ v, output.receiver = some v ∧ v.IsOf l.this.toTy ∧ ∃ j, v.toJson = .ok j ∧
      (∀ path, ∃ v', ofJson path l.this.toTy j = .ok v' ∧ v'.unmarked = v.unmarked) ∧
      ∃ fields, Inputs.readReceiver c.abi l.this (Session.carried 0 j) = .ok fields := by
  have runs : (do
      let program ← (Program.read paySource).toOption
      let c ← (program.compile "Account" "pay").toOption
      let code ← (c.code.link c.abi c.header).toOption
      let inputs ← (Inputs.ofCall c.abi payCall).toOption
      let l ← (program.layout "Account" "pay").toOption
      let f : LinkedFunction := ⟨c.abi, c.header, code, ""⟩
      let output ← (f.run inputs 100).toOption
      let records ← (LinkedFunction.recordsOf inputs.others).toOption
      return inputs.callerKey.isNone &&
        ((after code ⟨inputs.callerKey, records⟩ 12 (f.machine inputs)).isNone &&
          (List.range 12).all fun k =>
            (after code ⟨inputs.callerKey, records⟩ k (f.machine inputs)).all fun m =>
              decide m.IsShort && (m.unsetSlot? code).isNone)) = some true := by
    decide +kernel
  simp only [Option.bind_eq_bind, Option.bind_eq_some_iff, toOption_eq_some, Option.pure_def,
    Option.some.injEq, Bool.and_eq_true, Option.isNone_iff_eq_none, List.all_eq_true] at runs
  obtain ⟨program, hp, c, hc, code, linked, inputs, accepted, l, layout, output, ran, records, found,
    nobody, ended, each⟩ := runs
  have checked : ∀ records' n m, LinkedFunction.recordsOf inputs.others = .ok records' →
      Reaches code ⟨inputs.callerKey, records'⟩
        ((⟨c.abi, c.header, code, ""⟩ : LinkedFunction).machine inputs) n m →
      m.IsShort ∧ m.unsetSlot? code = none := by
    intro records' n m found' reached
    cases found.symm.trans found'
    have here := each n (List.mem_range.mpr (reached.lt_of_after_eq_none ended))
    rw [reaches_iff_after.mp reached] at here
    simpa using here
  have ordinary : (⟨c.abi, c.header, code, ""⟩ : LinkedFunction).Ordinary l.slots inputs := by
    refine ⟨⟨fun records n m j found reached _ _ => (checked records n m found reached).1,
      fun records n m slot found reached unset => ?_⟩, fun k known => ?_⟩
    · rw [(checked records n m found reached).2] at unset
      cases unset
    · rw [nobody] at known
      cases known
  obtain ⟨-, -, v, left, typed, j, written, again, later⟩ :=
    left_record_is_read hp hc linked accepted layout ordinary ran
  exact ⟨program, c, code, inputs, l, output, hp, hc, linked, accepted, layout, ran, v, left, typed, j,
    written, again, (later 0 _ .refl "pay" c hc).2⟩

/-- Where a call of a session is refused for a datum that does not fit. -/
def refusedAt? : Except Error Report → Option String
  | .error (.call (.unsuitable path _)) => some path
  | _ => none

-- A key that is handed over as one is not looked at: one that names no point is left in the record, and the
-- next call refuses the record there. So an ordinary run has a caller with a key that data can give.
example : (Session.run
    "contract R \x7b id: string; key: PublicKey; @call f() \x7b this.key = ctx.publicKey; \x7d \x7d" "R"
    ⟨.record [("id", .text ""), ("key", .null)], 0⟩
    (List.replicate 2 ⟨"f", { Call.empty with callerKey := .key ⟨1, 1⟩ }, none, some 100⟩)).map
      (fun answer => (answer.isOk, refusedAt? answer)) = [(true, none), (false, some "this.key")] := by
  decide +kernel

/-- A function that sets a local on one branch only, and stores it in a list. -/
def skippedListSource : String :=
  "contract R \x7b id: string; xs: u32[]; @call f(c: boolean) \x7b " ++
  "if (c) let n: u32 = 1; this.xs = [n]; \x7d \x7d"

def skippedListStep : SessionStep :=
  ⟨"f", { Call.empty with arguments := .list [.boolean false] }, none, some 100⟩

/-- The local that has not been set is left in the record, as no value of the type of its list, and the next
call refuses the record there. -/
theorem unset_local_is_left :
    (Session.run skippedListSource "R" ⟨.record [("id", .text ""), ("xs", .list [])], 0⟩
        [skippedListStep, skippedListStep]).map (fun answer => (answer.isOk, refusedAt? answer))
      = [(true, none), (false, some "this.xs[0]")] := by
  decide +kernel

end Covenant
