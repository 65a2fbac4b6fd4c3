import Covenant.Proofs.Compile.Slots
import Covenant.Proofs.Run.Minimal
/-!
Slots in runs of compiled functions.

* `Program.MaySkip`: a slot belongs to a name whose declaration is the branch of a condition or the body of
  a loop;
* `locals_are_set_before_they_are_read`: a run reads the slots of parameters, slots that it has set, and
  such slots only;
* `skipped_local_is_read`: such a slot is read where its declaration has been skipped.
-/

namespace Covenant

open Code Machine

/-! ## Declared functions -/

namespace Program

def declaration? (program : Program) (contract function : String) : Option FunctionDecl :=
  (program.find? fun r => r.name == contract).bind fun r => r.functions.find? fun f => f.name == function

/-- A slot belongs to a name that a function declares directly as the branch of a condition or as the body
of a loop. -/
def MaySkip (program : Program) (contract function : String) (slot : Nat) : Prop :=
  ∃ declaration, program.declaration? contract function = some declaration ∧
    slot ∈ declaration.body.skippable declaration.parameters.length

end Program

theorem Schema.find?_declaration {program : Program} {schema : Schema} (h : ofProgram program = .ok schema)
    {name : String} {r : RecordSchema} (found : schema.find? name = some r) :
    program.find? (fun d => d.name == name) = some r.declaration := by
  obtain ⟨-, -, made⟩ := bind_eq_ok.mp h
  replace made := mapM_eq_ok.mp made
  clear h
  unfold find? at found
  generalize program.map (·.name) = names at made
  induction made with
  | nil => cases found
  | @cons d r' program schema first _ ih =>
    obtain ⟨rfl, -⟩ := declared_of_ofRecord first
    cases same : r'.declaration.name == name with
    | true =>
      simp only [List.find?_cons, RecordSchema.name, same] at found ⊢
      rw [Option.some.inj found]
    | false =>
      simp only [List.find?_cons, RecordSchema.name, same] at found ⊢
      exact ih found

theorem Program.declaration?_eq {program : Program} {schema : Schema} {contract function : String}
    {record : RecordSchema} {declaration : FunctionDecl} (hs : Schema.ofProgram program = .ok schema)
    (hr : schema.record contract = .ok record) (hd : record.function? function = some declaration) :
    program.declaration? contract function = some declaration := by
  rw [declaration?, Schema.find?_declaration hs (Schema.record_eq_ok.mp hr)]
  exact hd

/-! ## Runs -/

/-- The code of a compiled function reads slots of parameters, slots that have been set, and those of names
whose declaration may be skipped. -/
theorem Program.covered_of_compile {program : Program} {contract function : String} {c : Compiled}
    (hc : program.compile contract function = .ok c) :
    Covered (fun k => k < c.abi.parameterTypes.length ∨ program.MaySkip contract function k) c.code := by
  obtain ⟨schema, record, policy, hs, hr, -, ⟨-, rfl⟩ | ⟨declaration, f, hd, hf, code, abi⟩⟩ :=
    Program.cases_of_compile hc
  · exact Loads.covered (loads_append.mpr ⟨policy.loads_code 0, by simp⟩)
  · have parameters : f.parameters.length = declaration.parameters.length := by
      obtain ⟨parameters, hp, h⟩ := bind_eq_ok.mp hf
      obtain ⟨_, -, h⟩ := bind_eq_ok.mp h
      obtain ⟨_, -, h⟩ := bind_eq_ok.mp h
      obtain ⟨_, -, h⟩ := bind_eq_ok.mp h
      obtain ⟨_, -, h⟩ := bind_eq_ok.mp h
      obtain rfl := pure_eq_ok.mp h
      exact (mapM_eq_ok.mp hp).length_eq.symm
    rw [code, abi]
    refine (CheckedFunction.covered hf).mono fun k hk => ?_
    rcases hk with few | skip
    · exact .inl (by simpa [Schema.describe] using few)
    · exact .inr ⟨declaration, declaration?_eq hs hr hd, parameters ▸ skip⟩

/-- A run of a compiled function reads a slot only if that belongs to a parameter, if the run has set it, or
if the declaration of its name may be skipped. -/
theorem locals_are_set_before_they_are_read {program : Program} {contract function : String} {c : Compiled}
    {code : LinkedCode} (hc : program.compile contract function = .ok c)
    (linked : c.code.link c.abi c.header = .ok code) (s : Surroundings) (receiver : Datum)
    (locals : List Datum) {n k : Nat} {m : Machine} (reached : Reaches code s (start receiver locals) n m)
    (here : code[m.place]? = some (.loadLocal k)) :
    k < c.abi.parameterTypes.length ∨ program.MaySkip contract function k ∨
      ∃ j a, j < n ∧ Reaches code s (start receiver locals) j a ∧ code[a.place]? = some (.storeLocal k) := by
  obtain ⟨-, -, -, -, -, known⟩ := Program.describes_of_compile hc
  obtain ⟨labels, holds, whole⟩ := exists_linkage_of_link linked
  obtain ⟨_, _, -, -, -, stack⟩ := link_eq_ok linked
  obtain ⟨heights, level, start⟩ := LinkedCode.level_of_checkStack stack
  rw [← or_assoc]
  exact Linkage.exists_store level (LinkedCode.known_of_link known linked) holds whole (closed_of_link linked)
    (Program.covered_of_compile hc) rfl start reached here

/-- A function with a name of its own in the body of a loop. -/
def doubledSource : String :=
  "contract R \x7b id: string; @call g(c: u32): u32 \x7b let n: u32 = 1; " ++
  "while (n < c) \x7b let m = n; n += m; \x7d return n; \x7d \x7d"

def doubledStart : Machine := start .null [.integer 2, .null, .null]

def Machine.isReading (code : LinkedCode) (slot : Nat) (m : Machine) : Bool :=
  match code[m.place]? with
  | some (.loadLocal k) => k == slot
  | _ => false

theorem Machine.isReading_iff {code : LinkedCode} {slot : Nat} {m : Machine} :
    m.isReading code slot = true ↔ code[m.place]? = some (.loadLocal slot) := by
  unfold isReading
  split
  next k here => simp [here]
  next other => exact ⟨nofun, fun here => absurd here (other slot)⟩

theorem doubled_is_set : ∃ program c code m, Program.read doubledSource = .ok program ∧
    program.compile "R" "g" = .ok c ∧ c.code.link c.abi c.header = .ok code ∧
    Reaches code ⟨none, []⟩ doubledStart 9 m ∧ code[m.place]? = some (.loadLocal 2) ∧
    ∃ j a, j < 9 ∧ Reaches code ⟨none, []⟩ doubledStart j a ∧ code[a.place]? = some (.storeLocal 2) := by
  have runs : (do
      let program ← (Program.read doubledSource).toOption
      let c ← (program.compile "R" "g").toOption
      let code ← (c.code.link c.abi c.header).toOption
      let m ← after code ⟨none, []⟩ 9 doubledStart
      let declaration ← program.declaration? "R" "g"
      return m.isReading code 2 && (c.abi.parameterTypes.length == 1 &&
        (declaration.body.skippable declaration.parameters.length).isEmpty)) = some true := by
    decide +kernel
  simp only [Option.bind_eq_bind, Option.bind_eq_some_iff, toOption_eq_some, Option.pure_def,
    Option.some.injEq, Bool.and_eq_true, isReading_iff, beq_iff_eq, List.isEmpty_iff] at runs
  obtain ⟨program, hp, c, hc, code, linked, m, reached, declaration, hd, here, one, none⟩ := runs
  have reached := reaches_iff_after.mpr reached
  refine ⟨program, c, code, m, hp, hc, linked, reached, here, ?_⟩
  rcases locals_are_set_before_they_are_read hc linked _ _ _ reached here with few | ⟨_, hd', skip⟩ | set
  · rw [one] at few
    cases few with
    | step few => cases few
  · cases hd.symm.trans hd'
    rw [none] at skip
    cases skip
  · exact set

/-- A function that declares a name as the body of a loop, and reads it after the loop. -/
def loopedSource : String :=
  "contract R \x7b id: string; @call g(c: boolean): u32 \x7b " ++
  "while (c) let n: u32 = 1; return n + 1; \x7d \x7d"

def loopedCall : Call :=
  { Call.empty with receiver := .record [("id", .text "")], arguments := .list [.boolean false] }

def Machine.isSetting (code : LinkedCode) (m : Machine) : Bool :=
  match code[m.place]? with
  | some (.storeLocal _) => true
  | _ => false

/-- The loop is not entered, and the slot of the name in it is read without having been set. -/
theorem skipped_local_is_read : ∃ program c code inputs n m, Program.read loopedSource = .ok program ∧
    program.compile "R" "g" = .ok c ∧ c.code.link c.abi c.header = .ok code ∧
    Inputs.ofCall c.abi loopedCall = .ok inputs ∧ c.abi.parameterTypes.length = 1 ∧
    Reaches code ⟨inputs.callerKey, []⟩
      ((⟨c.abi, c.header, code, ""⟩ : LinkedFunction).machine inputs) n m ∧
    code[m.place]? = some (.loadLocal 1) ∧
    ∀ j a, j < n → Reaches code ⟨inputs.callerKey, []⟩
      ((⟨c.abi, c.header, code, ""⟩ : LinkedFunction).machine inputs) j a →
      ∀ k, code[a.place]? ≠ some (.storeLocal k) := by
  have runs : (do
      let program ← (Program.read loopedSource).toOption
      let c ← (program.compile "R" "g").toOption
      let code ← (c.code.link c.abi c.header).toOption
      let inputs ← (Inputs.ofCall c.abi loopedCall).toOption
      let begin := (⟨c.abi, c.header, code, ""⟩ : LinkedFunction).machine inputs
      let m ← after code ⟨inputs.callerKey, []⟩ 2 begin
      return m.isReading code 1 && (c.abi.parameterTypes.length == 1 && ((List.range 2).all fun j =>
        (after code ⟨inputs.callerKey, []⟩ j begin).all fun a => !a.isSetting code))) = some true := by
    decide +kernel
  simp only [Option.bind_eq_bind, Option.bind_eq_some_iff, toOption_eq_some, Option.pure_def,
    Option.some.injEq, Bool.and_eq_true, isReading_iff, beq_iff_eq, List.all_eq_true, List.mem_range] at runs
  obtain ⟨program, hp, c, hc, code, linked, inputs, accepted, m, reached, here, one, each⟩ := runs
  refine ⟨program, c, code, inputs, 2, m, hp, hc, linked, accepted, one, reaches_iff_after.mpr reached, here,
    fun j a few reached' k stores => ?_⟩
  have none := each j few
  rw [reaches_iff_after.mp reached', Option.all_some, isSetting, stores] at none
  cases none

end Covenant
