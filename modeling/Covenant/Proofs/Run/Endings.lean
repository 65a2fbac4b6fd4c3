import Covenant.Proofs.Machine.Foreseen
import Covenant.Proofs.Run.Commitments
import Covenant.Proofs.Run.Outputs
/-!
How a run can end.

* `LinkedFunction.Tame`: a run that meets no state in which an operation has no meaning for its data, nor
  is too large: no local is read without a value, no remainder of infinity is taken, and what is counted
  is short;
* `Compiled.Fits.foreseen`: no step of such a run fails for want of a meaning;
* `Compiled.Fits.exists_departing`: when it leaves, its receiver and its result are values that can be
  committed to;
* `run_ends_as_foreseen`: so it yields an output or fails as the language foresees;
* `unset_local_is_misused`: a local that a branch has not set ends a run otherwise.
-/

namespace Covenant

open Machine

/-- Leaves all of which are there but for keys, which may be any. -/
def Leaves.keyed : Leaves := ⟨(· = .publicKey), fun _ => True⟩

/-- A regular run that takes the remainder of finite numbers only. -/
structure LinkedFunction.Tame (f : LinkedFunction) (slots : List Ty) (inputs : Inputs) : Prop
    extends f.Regular slots inputs where
  finite : ∀ records n m j, LinkedFunction.recordsOf inputs.others = .ok records →
    Reaches f.code ⟨inputs.callerKey, records⟩ (f.machine inputs) n m →
    f.code[m.place]? = some j → IsFinite j m

/-! ## Records -/

/-- A run on accepted inputs finds the supplied records by their ids, if these have no parts. -/
theorem Inputs.Read.exists_recordsOf {abi : Abi} {call : Call} {inputs : Inputs}
    (read : Read abi call inputs)
    (ids : ∀ type ∈ abi.otherTypes, ∀ t, type.field? "id" = some t → t.isAtom = true) :
    ∃ records, LinkedFunction.recordsOf inputs.others = .ok records := by
  have named : ∀ p ∈ inputs.others, ∀ r ∈ p.2, ∃ id, recordId r.value = .ok id := by
    rintro ⟨name, records⟩ here r hr
    obtain ⟨type, ht, -, typed⟩ := read.exists_type here
    obtain ⟨t, held⟩ := read.exists_id ht
    exact exists_recordId (typed r hr) held (ids type ht t held)
  obtain ⟨records, found, -⟩ := LinkedFunction.exists_recordsOf named
  exact ⟨records, found⟩

/-! ## Steps -/

namespace Compiled.Fits

variable {l : Layout} {c : Compiled} {call : Call} {inputs : Inputs} {code : LinkedCode}
  {fingerprint : String} {records : List (String × List (Bytes × Datum))}

/-- Data of a run on accepted inputs conform to the types of each place that it comes to. -/
theorem conformsAt (fits : c.Fits l) (read : Inputs.Read c.abi call inputs)
    (tame : (⟨c.abi, c.header, code, fingerprint⟩ : LinkedFunction).Tame l.slots inputs)
    (found : LinkedFunction.recordsOf inputs.others = .ok records) {labels : List (String × Nat)}
    {levels : Nat → Option (List Ty)}
    (each : Code.LevelsOf (Instruction.Typed l c.abi.returnType) c.abi c.header labels code levels)
    (first : levels 0 = some []) {n : Nat} {m : Machine}
    (reached : Reaches code ⟨inputs.callerKey, records⟩
      ((⟨c.abi, c.header, code, fingerprint⟩ : LinkedFunction).machine inputs) n m) :
    m.ConformsAt .keyed l levels :=
  ConformsAt.reaches each
    (read.conform fits (fun _ _ => trivial) (fun _ _ => trivial) (fun _ => rfl) found)
    ⟨[], first, read.conforms_machine fits (fun _ _ => trivial) code fingerprint⟩ reached
    fun _ _ _ _ ha here => tame.suits rfl found ha here

/-- No step of a tame run fails for want of a meaning. -/
theorem foreseen (fits : c.Fits l) (linked : c.code.link c.abi c.header = .ok code)
    (read : Inputs.Read c.abi call inputs)
    (tame : (⟨c.abi, c.header, code, fingerprint⟩ : LinkedFunction).Tame l.slots inputs)
    (found : LinkedFunction.recordsOf inputs.others = .ok records) {n : Nat} {m : Machine}
    (reached : Reaches code ⟨inputs.callerKey, records⟩
      ((⟨c.abi, c.header, code, fingerprint⟩ : LinkedFunction).machine inputs) n m)
    {x : Except Failure (Option Departure) × Machine}
    (hs : step code ⟨inputs.callerKey, records⟩ m = some x) : Foreseen x.1 := by
  obtain ⟨labels, levels, each, first⟩ := fits.exists_levels linked
  exact (fits.conformsAt read tame found each first reached).foreseen each (fun _ h => h)
    (fun j here => tame.finite records n m j found reached here) hs

/-- When a tame run leaves, it yields an output. -/
theorem exists_departing (fits : c.Fits l) (linked : c.code.link c.abi c.header = .ok code)
    (read : Inputs.Read c.abi call inputs)
    (tame : (⟨c.abi, c.header, code, fingerprint⟩ : LinkedFunction).Tame l.slots inputs)
    (found : LinkedFunction.recordsOf inputs.others = .ok records) {n : Nat} {m m' : Machine}
    (reached : Reaches code ⟨inputs.callerKey, records⟩
      ((⟨c.abi, c.header, code, fingerprint⟩ : LinkedFunction).machine inputs) n m)
    {departure : Departure}
    (hs : step code ⟨inputs.callerKey, records⟩ m = some (.ok (some departure), m')) :
    ∃ output, (⟨c.abi, c.header, code, fingerprint⟩ : LinkedFunction).output inputs departure m' =
      .ok output := by
  obtain ⟨labels, levels, each, first⟩ := fits.exists_levels linked
  obtain ⟨types, preserves⟩ := (fits.conformsAt read tame found each first reached).departs each
    (read.conform fits (fun _ _ => trivial) (fun _ _ => trivial) (fun _ => rfl) found) hs
  have held : m'.Conforms .keyed l types := by
    cases departure <;> exact preserves.1
  obtain ⟨result, yields⟩ : ∃ result, LinkedFunction.resultValue c.abi departure = .ok result := by
    unfold LinkedFunction.resultValue
    cases departure with
    | plain =>
      rw [preserves.2]
      exact ⟨none, rfl⟩
    | value d =>
      obtain ⟨-, type, returns, conforms⟩ := preserves
      obtain ⟨v, hv, -⟩ := Value.exists_ofDatum (fun _ h => h) conforms (fits.result type returns)
      exact ⟨some v, by simp only [returns, hv]; rfl⟩
  obtain ⟨fields, receiver, all⟩ := held.receiver
  obtain ⟨nodup, parts⟩ := Ty.distinct_struct_iff.mp fits.distinct
  have distinct : (fields.map Prod.fst).Nodup := all.names ▸ nodup
  obtain ⟨values, hvs, names, writable, -⟩ := Value.exists_ofFields (fun _ h => h) all parts fields
    fun f hf => lookup_of_mem distinct hf
  have left : Value.ofDatum l.this.toTy m'.receiver = .ok (.struct values) := by
    rw [receiver, RecordType.toTy, Value.ofDatum, hvs]
    rfl
  obtain ⟨output, made, -⟩ :=
    LinkedFunction.exists_output (f := ⟨c.abi, c.header, code, fingerprint⟩) read fits.this fits.own
      departure m' left names writable yields
  exact ⟨output, made⟩

end Compiled.Fits

/-! ## Runs -/

/-- Whatever is compiled and whatever inputs are accepted, a tame run with any limit yields an output or
fails as the language foresees, if the ids of supplied records have no parts. The texts of the inputs are
sequences of characters that can be encoded, as records are looked up by the bytes of their ids and
commitments are made of those of texts. -/
theorem run_ends_as_foreseen {source : String} {program : Program} {contract function : String}
    {c : Compiled} (hp : Program.read source = .ok program)
    (hc : program.compile contract function = .ok c) {code : LinkedCode}
    (linked : c.code.link c.abi c.header = .ok code) {call : Call} {inputs : Inputs}
    (accepted : Inputs.ofCall c.abi call = .ok inputs) {l : Layout}
    (layout : program.layout contract function = .ok l)
    (ids : ∀ type ∈ c.abi.otherTypes, ∀ t, type.field? "id" = some t → t.isAtom = true)
    {fingerprint : String}
    (tame : (⟨c.abi, c.header, code, fingerprint⟩ : LinkedFunction).Tame l.slots inputs) (limit : Nat) :
    (∃ output, (⟨c.abi, c.header, code, fingerprint⟩ : LinkedFunction).run inputs limit = .ok output) ∨
      ∃ failure, (⟨c.abi, c.header, code, fingerprint⟩ : LinkedFunction).run inputs limit =
        .error (.execution failure) ∧ ∀ why, failure ≠ .misuse why := by
  obtain ⟨l', layout', fits⟩ := Program.fits_of_compile hp hc
  cases layout.symm.trans layout'
  have read := Inputs.read_of_ofCall accepted
  obtain ⟨records, found⟩ := read.exists_recordsOf ids
  let f : LinkedFunction := ⟨c.abi, c.header, code, fingerprint⟩
  cases ended : Machine.run code ⟨inputs.callerKey, records⟩ limit (f.machine inputs) with
  | mk outcome last =>
    cases outcome with
    | ok departure =>
      obtain ⟨n, m, reached, hs⟩ := exists_step_of_departs ended
      obtain ⟨output, made⟩ := fits.exists_departing linked read tame found reached hs
      exact .inl ⟨output, LinkedFunction.run_of_departs (f := f) read.described found ended made⟩
    | error failure =>
      refine .inr ⟨failure, (LinkedFunction.run_eq_error_iff (f := f) read.described found).mpr
        (by rw [ended]), ?_⟩
      obtain ⟨n, left, m, reached, -, ends⟩ :=
        runFrom_cases (s := ⟨inputs.callerKey, records⟩) (.integer limit) limit (f.machine inputs)
      rw [← Machine.run, ended] at ends
      cases ends with
      | past | cutOff => exact nofun
      | fails hs =>
        have foreseen := fits.foreseen linked read tame found reached hs
        exact fun why same => foreseen why (congrArg Except.error same)

/-- A function that follows a reference, takes a remainder, keeps it in a local and adds it to a list. -/
def settleSource : String :=
  "contract Bank \x7b id: string; rate: f64; \x7d " ++
  "contract Account \x7b bank: Bank; rests: f64[]; @call settle(part: f64): f64 \x7b " ++
  "let rest = this.bank.rate % part; this.rests.push(rest); return rest; \x7d \x7d"

def settleCall : Call :=
  { Call.empty with
    receiver := .record [("bank", .text "b"), ("rests", .list [])]
    arguments := .list [.integer 3]
    others := .record [("Bank", .list [.record [("id", .text "b"), ("rate", .integer 8)]])] }

theorem settle_ends_as_foreseen : ∃ program c code inputs l,
    Program.read settleSource = .ok program ∧ program.compile "Account" "settle" = .ok c ∧
    c.code.link c.abi c.header = .ok code ∧ Inputs.ofCall c.abi settleCall = .ok inputs ∧
    program.layout "Account" "settle" = .ok l ∧
    (∀ type ∈ c.abi.otherTypes, ∀ t, type.field? "id" = some t → t.isAtom = true) ∧
    (⟨c.abi, c.header, code, ""⟩ : LinkedFunction).Tame l.slots inputs ∧
    ((∃ output, (⟨c.abi, c.header, code, ""⟩ : LinkedFunction).run inputs 100 = .ok output) ∨
      ∃ failure, (⟨c.abi, c.header, code, ""⟩ : LinkedFunction).run inputs 100 =
        .error (.execution failure) ∧ ∀ why, failure ≠ .misuse why) := by
  have runs : (do
      let program ← (Program.read settleSource).toOption
      let c ← (program.compile "Account" "settle").toOption
      let code ← (c.code.link c.abi c.header).toOption
      let inputs ← (Inputs.ofCall c.abi settleCall).toOption
      let l ← (program.layout "Account" "settle").toOption
      let f : LinkedFunction := ⟨c.abi, c.header, code, ""⟩
      let records ← (LinkedFunction.recordsOf inputs.others).toOption
      return (c.abi.otherTypes.all fun type => (type.field? "id").all Ty.isAtom) &&
        ((after code ⟨inputs.callerKey, records⟩ 12 (f.machine inputs)).isNone &&
          (List.range 12).all fun k =>
            (after code ⟨inputs.callerKey, records⟩ k (f.machine inputs)).all fun m =>
              decide m.IsShort && ((m.unsetSlot? code).isNone &&
                (m.stack.tail.head?.all fun a => !a.isInfinite)))) = some true := by
    decide +kernel
  simp only [Option.bind_eq_bind, Option.bind_eq_some_iff, toOption_eq_some, Option.pure_def,
    Option.some.injEq, Bool.and_eq_true, List.all_eq_true] at runs
  obtain ⟨program, hp, c, hc, code, linked, inputs, accepted, l, layout, records, found, atoms, ended,
    each⟩ := runs
  have ids : ∀ type ∈ c.abi.otherTypes, ∀ t, type.field? "id" = some t → t.isAtom = true := by
    intro type ht t held
    simpa [held] using atoms type ht
  have checked : ∀ records' n m, LinkedFunction.recordsOf inputs.others = .ok records' →
      Reaches code ⟨inputs.callerKey, records'⟩
        ((⟨c.abi, c.header, code, ""⟩ : LinkedFunction).machine inputs) n m →
      m.IsShort ∧ m.unsetSlot? code = none ∧ ∀ a, m.stack.tail.head? = some a → a.isInfinite = false := by
    intro records' n m found' reached
    cases found.symm.trans found'
    have early := reached.lt_of_after_eq_none (Option.isNone_iff_eq_none.mp ended)
    have here := each n (List.mem_range.mpr early)
    rw [reaches_iff_after.mp reached] at here
    simpa [Option.all_eq_true] using here
  have tame : (⟨c.abi, c.header, code, ""⟩ : LinkedFunction).Tame l.slots inputs := by
    refine ⟨⟨fun records n m j found reached _ _ => (checked records n m found reached).1,
      fun records n m slot found reached unset => ?_⟩, fun records n m j found reached _ => ?_⟩
    · rw [(checked records n m found reached).2.1] at unset
      cases unset
    · rintro type - b a rest stack
      exact (checked records n m found reached).2.2 a (by rw [stack]; rfl)
  exact ⟨program, c, code, inputs, l, hp, hc, linked, accepted, layout, ids, tame,
    run_ends_as_foreseen hp hc linked accepted layout ids tame 100⟩

/-- A function that sets a local on one branch only. -/
def skippedSource : String :=
  "contract R \x7b id: string; @call g(c: boolean): u32 \x7b " ++
  "if (c) let n: u32 = 1; return n + 1; \x7d \x7d"

def skippedCall : Call :=
  { Call.empty with receiver := .record [("id", .text "")], arguments := .list [.boolean false] }

/-- What was wrong with the data of a run that has failed for want of a meaning. -/
def misuse? : Except Error Output → Option Misuse
  | .error (.execution (.misuse why)) => some why
  | _ => none

theorem eq_of_misuse? {r : Except Error Output} {why : Misuse} (h : misuse? r = some why) :
    r = .error (.execution (.misuse why)) := by
  unfold misuse? at h
  split at h
  · cases h
    rfl
  · cases h

/-- The local that has not been set is no number, and the sum with it fails otherwise than the language
foresees. -/
theorem unset_local_is_misused : ∃ program c code inputs,
    Program.read skippedSource = .ok program ∧ program.compile "R" "g" = .ok c ∧
    c.code.link c.abi c.header = .ok code ∧ Inputs.ofCall c.abi skippedCall = .ok inputs ∧
    (⟨c.abi, c.header, code, ""⟩ : LinkedFunction).run inputs 100 =
      .error (.execution (.misuse .kind)) := by
  have runs : (do
      let program ← (Program.read skippedSource).toOption
      let c ← (program.compile "R" "g").toOption
      let code ← (c.code.link c.abi c.header).toOption
      let inputs ← (Inputs.ofCall c.abi skippedCall).toOption
      misuse? ((⟨c.abi, c.header, code, ""⟩ : LinkedFunction).run inputs 100)) = some .kind := by
    decide +kernel
  simp only [Option.bind_eq_bind, Option.bind_eq_some_iff, toOption_eq_some] at runs
  obtain ⟨program, hp, c, hc, code, linked, inputs, accepted, misused⟩ := runs
  exact ⟨program, c, code, inputs, hp, hc, linked, accepted, eq_of_misuse? misused⟩

end Covenant
