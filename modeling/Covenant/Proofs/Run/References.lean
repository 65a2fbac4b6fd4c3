import Covenant.Proofs.Compile.Acceptance
import Covenant.Proofs.Compile.Guard
import Covenant.Proofs.Compile.Passages
import Covenant.Proofs.Run.Refusals
/-!
The references that a call must have.

* `Machine.Follows`, `Machine.Tests`: a run loads the reference in a field of the receiver and looks up
  what it stands for, or tests whether it is set;
* `Compiled.Touches`: every run that leaves the function does one of these;
* `required_references_are_touched`: so it is with the references that a function requires, if it requires
  them also without its dead statements.
-/

namespace Covenant

open Code Machine

/-! ## Runs -/

namespace Machine

/-- The run from a state comes to load the reference in a field of the receiver, and follows it. -/
def Follows (code : LinkedCode) (s : Surroundings) (m : Machine) (field : String) : Prop :=
  ∃ n a contract reference record, Reaches code s m n a ∧
    code[a.place]? = some (.loadThis field) ∧ code[a.place + 1]? = some (.deref contract) ∧
    a.receiver.member field = .ok reference ∧ s.recordOf contract reference = .ok record ∧
    Reaches code s m (n + 2)
      { a with stack := record :: a.stack, place := a.place + 2, steps := a.steps + 2 }

/-- The run from a state comes to load the reference in a field of the receiver, and tests it. -/
def Tests (code : LinkedCode) (s : Surroundings) (m : Machine) (field : String) : Prop :=
  ∃ n a reference, Reaches code s m n a ∧
    code[a.place]? = some (.loadThis field) ∧ code[a.place + 1]? = some .dup ∧
    code[a.place + 2]? = some .truthy ∧ a.receiver.member field = .ok reference ∧
    Reaches code s m (n + 3)
      { a with
        stack := .boolean reference.holds :: reference :: a.stack
        place := a.place + 3
        steps := a.steps + 3 }

end Machine

namespace Linkage

variable {l : Linkage} {s : Surroundings} {m a : Machine} {n place : Nat} {field : String}

/-- A run that comes to load a reference and does not fail has the reference on the stack then. -/
theorem exists_loaded {st lo : List Datum} {r : Datum} {k c : Nat} (here : l.HasAt place (.loadThis field))
    (departs : Departs l.code s ⟨st, lo, r, place, k, c⟩) : ∃ reference, r.member field = .ok reference ∧
      Reaches l.code s ⟨st, lo, r, place, k, c⟩ 1 ⟨reference :: st, lo, r, place + 1, k + 1, c⟩ ∧
      Departs l.code s ⟨reference :: st, lo, r, place + 1, k + 1, c⟩ := by
  have hs := step_of_instruction (s := s) (m := ⟨st, lo, r, place, k, c⟩) here.loadThis
  rw [execute_loadThis] at hs
  obtain ⟨reference, held, hs, departs⟩ := departs.of_answer hs
  exact ⟨reference, Failure.lift_eq_ok.mp held, .one hs, departs⟩

/-- A run that comes to code which follows a reference, and does not fail, has followed it. -/
theorem follows_of_holds {contract : String}
    (holds : l.Holds a.place [.op (.loadThis field), .op (.deref contract)])
    (reached : Reaches l.code s m n a) (departs : Departs l.code s a) : Follows l.code s m field := by
  obtain ⟨load, deref, -⟩ := holds
  obtain ⟨stack, locals, receiver, place, steps, computed⟩ := a
  obtain ⟨reference, held, loaded, departs⟩ := exists_loaded load departs
  have hs := step_of_instruction (s := s)
    (m := ⟨reference :: stack, locals, receiver, place + 1, steps + 1, computed⟩) deref.deref
  rw [execute_deref] at hs
  obtain ⟨record, found, hs, -⟩ := departs.of_answer hs
  exact ⟨n, _, contract, reference, record, reached, load.loadThis, deref.deref, held, found,
    reached.trans (loaded.snoc hs)⟩

/-- A run that comes to the code which tests a reference has tested it. -/
theorem tests_of_holds (holds : l.Holds a.place [.op (.loadThis field), .op .dup, .op .truthy])
    (reached : Reaches l.code s m n a) (departs : Departs l.code s a) : Tests l.code s m field := by
  obtain ⟨load, dup, truthy, -⟩ := holds
  obtain ⟨stack, locals, receiver, place, steps, computed⟩ := a
  obtain ⟨reference, held, loaded, -⟩ := exists_loaded load departs
  exact ⟨n, _, reference, reached, load.loadThis, dup.linked rfl, truthy.linked rfl, held,
    reached.trans ((loaded.snoc (step_dup dup)).snoc (step_truthy truthy))⟩

end Linkage

/-! ## Compiled functions -/

/-- The policy that is checked rests on the reference in a field alone. -/
def Abi.RestsOn (abi : Abi) (field : String) : Prop :=
  ∃ contract delegateField, abi.callPolicy = .delegate field contract delegateField ∨
    (abi.isReadAuth = true ∧ abi.readPolicy = .delegate field contract delegateField)

/-- Every run that leaves a function has followed the reference in a field, or has tested it where the
policy rests on it alone. -/
def Compiled.Touches (c : Compiled) (code : LinkedCode) (field : String) : Prop :=
  ∀ (s : Surroundings) (receiver : Datum) (locals : List Datum) (limit : Nat) (departure : Departure)
    (last : Machine), Machine.run code s limit (start receiver locals) = ⟨.ok departure, last⟩ →
      Follows code s (start receiver locals) field ∨
        (c.abi.RestsOn field ∧ Tests code s (start receiver locals) field)

/-- A function without the dead actions of its body. -/
def CheckedFunction.live (f : CheckedFunction) : CheckedFunction := { f with body := f.body.live }

/-- A function of a program follows a reference on every way also without its dead statements. -/
def Program.FollowsLive (program : Program) (contract function field : String) : Prop :=
  ∀ schema record declaration f, Schema.ofProgram program = .ok schema →
    schema.record contract = .ok record → record.function? function = some declaration →
    schema.check record declaration = .ok f → field ∈ f.live.followed

namespace CheckedFunction

theorem confined_guard (f : CheckedFunction) : Confined f.guard := by
  rcases f.guard_cases with ⟨none, -⟩ | some
  · rw [none]
    exact .nil
  · rw [some]
    refine (f.policy.confined_code 1).append ⟨?_, fun i hi name hn => ?_⟩
    · simp [Instruction.departs]
    · simp only [Line.op, List.mem_cons, Line.instruction.injEq, reduceCtorEq, List.not_mem_nil,
        or_false] at hi
      rcases hi with rfl | rfl <;> cases hn
      simp

end CheckedFunction

/-- Code that follows the reference in a field, or tests it for a policy that rests on it alone, before it
leaves the function. -/
def Code.Treats (policy : Policy) (field : String) (code : Code) : Prop :=
  Pursues field code ∨ ((∃ contract delegateField, policy = .delegate field contract delegateField) ∧
    Passes [.op (.loadThis field), .op .dup, .op .truthy] code)

/-- The code of a function treats so what the function follows without its dead statements. -/
theorem CheckedFunction.treats_code {f : CheckedFunction} {field : String} (h : field ∈ f.live.followed) :
    Treats f.policy field f.code := by
  rw [code_eq]
  rcases List.mem_append.mp (mem_of_mem_firstUses h) with policy | body
  · right
    have other : f.isConstructor = false := by
      by_contra constructor
      rw [live, if_pos (Bool.eq_true_of_not_eq_false constructor)] at policy
      cases policy
    rw [live, other, if_neg Bool.false_ne_true] at policy
    obtain ⟨contract, delegateField, same⟩ := Policy.mem_followed policy
    refine ⟨⟨contract, delegateField, same⟩, ?_⟩
    rcases f.guard_cases with ⟨-, none⟩ | some
    · rw [other, same] at none
      cases none
    · rw [some, same]
      exact ((Policy.passes_delegate 1 field contract delegateField).append _).append _
  · exact .inl (((f.body.pursues_code _ body).append _).after f.confined_guard)

/-- The code of the check of who may read treats so what its policy follows. -/
theorem Policy.treats_readAuth {p : Policy} {field : String} (h : field ∈ p.followed) :
    Treats p field (p.code 0 ++ [.op .leaveValue]) := by
  obtain ⟨contract, delegateField, rfl⟩ := Policy.mem_followed h
  exact .inr ⟨⟨contract, delegateField, rfl⟩,
    (Policy.passes_delegate 0 field contract delegateField).append _⟩

/-- A required reference is treated by the code that requires it. -/
theorem Program.treats_of_compile {program : Program} {contract function field : String} {c : Compiled}
    (hc : program.compile contract function = .ok c) (required : field ∈ c.abi.requiredReferences)
    (live : program.FollowsLive contract function field) : ∃ policy, Treats policy field c.code ∧
      (c.abi.callPolicy = policy ∨ (c.abi.isReadAuth = true ∧ c.abi.readPolicy = policy)) := by
  obtain ⟨schema, record, policy, hs, hr, -, ⟨-, rfl⟩ | ⟨declaration, f, hd, hf, code, abi⟩⟩ :=
    Program.cases_of_compile hc
  · exact ⟨policy, Policy.treats_readAuth required, .inr ⟨beq_self_eq_true readAuthName, rfl⟩⟩
  · rw [code, abi]
    exact ⟨f.policy, CheckedFunction.treats_code (live schema record declaration f hs hr hd hf), .inl rfl⟩

/-- What code treats on all of its ways is touched by the runs that leave the function. -/
theorem Compiled.touches_of_treats {c : Compiled} {code : LinkedCode} {policy : Policy} {field : String}
    (known : ∀ i, .instruction i ∈ c.code → i.isKnown = true) (linked : c.code.link c.abi c.header = .ok code)
    (treats : Treats policy field c.code)
    (rests : c.abi.callPolicy = policy ∨ (c.abi.isReadAuth = true ∧ c.abi.readPolicy = policy)) :
    c.Touches code field := by
  intro s receiver locals limit departure last run
  have departs := departs_of_run run
  obtain ⟨labels, holds, -⟩ := exists_linkage_of_link linked
  obtain ⟨_, _, -, -, -, stack⟩ := link_eq_ok linked
  obtain ⟨heights, level, start⟩ := LinkedCode.level_of_checkStack stack
  have known := LinkedCode.known_of_link known linked
  rcases treats with ⟨contract, passes⟩ | ⟨⟨contract, delegateField, same⟩, passes⟩
  · obtain ⟨n, a, reached, here, departs⟩ :=
      Linkage.exists_reaches_of_passes level known holds passes rfl start departs
    exact .inl (Linkage.follows_of_holds here reached departs)
  · obtain ⟨n, a, reached, here, departs⟩ :=
      Linkage.exists_reaches_of_passes level known holds passes rfl start departs
    subst same
    exact .inr ⟨⟨contract, delegateField, rests⟩, Linkage.tests_of_holds here reached departs⟩

/-- The references that a function requires are really required, if it requires them also without its dead
statements: every run that leaves the function follows each of them, or tests the one that the policy
rests on. A call is refused for an empty reference only where it is such a one. -/
theorem required_references_are_touched {program : Program} {contract function : String} {c : Compiled}
    {code : LinkedCode} (hc : program.compile contract function = .ok c)
    (linked : c.code.link c.abi c.header = .ok code) :
    (∀ field ∈ c.abi.requiredReferences, program.FollowsLive contract function field →
      c.Touches code field) ∧
    ∀ call path other, Inputs.ofCall c.abi call = .error (.unsuitable path (.emptyReference other)) →
      ∃ field ∈ c.abi.requiredReferences, path = "this." ++ field ∧
        (program.FollowsLive contract function field → c.Touches code field) := by
  obtain ⟨-, -, -, -, -, known⟩ := Program.describes_of_compile hc
  have touched : ∀ field ∈ c.abi.requiredReferences, program.FollowsLive contract function field →
      c.Touches code field := by
    intro field required live
    obtain ⟨policy, treats, rests⟩ := Program.treats_of_compile hc required live
    exact Compiled.touches_of_treats known linked treats rests
  refine ⟨touched, fun call path other refused => ?_⟩
  obtain ⟨field, required, here⟩ := Inputs.faultsAmong_ofCall hc call _ refused
  exact ⟨field, required, here, touched field required⟩

theorem Program.followsLive_of {program : Program} {contract function field : String} {schema : Schema}
    {record : RecordSchema} {declaration : FunctionDecl} {f : CheckedFunction}
    (hs : Schema.ofProgram program = .ok schema) (hr : schema.record contract = .ok record)
    (hd : record.function? function = some declaration) (checked : schema.check record declaration = .ok f)
    (h : field ∈ f.live.followed) : program.FollowsLive contract function field := by
  intro schema' record' declaration' f' hs' hr' hd' checked'
  cases hs.symm.trans hs'
  cases hr.symm.trans hr'
  cases hd.symm.trans hd'
  cases checked.symm.trans checked'
  exact h

/-- A function that follows a reference before a branch, and holds a dead statement. -/
def feeSource : String :=
  "contract Bank \x7b id: string; fee: u32; \x7d contract Account \x7b bank: Bank; " ++
  "@call due(k: u32): u32 \x7b let fee = this.bank.fee; if (k > fee) \x7b return k; \x7d " ++
  "return fee; let none = 0; \x7d \x7d"

theorem fee_is_touched : ∃ program c code, Program.read feeSource = .ok program ∧
    program.compile "Account" "due" = .ok c ∧ c.code.link c.abi c.header = .ok code ∧
    "bank" ∈ c.abi.requiredReferences ∧ program.FollowsLive "Account" "due" "bank" ∧
    c.Touches code "bank" := by
  have runs : (do
      let program ← (Program.read feeSource).toOption
      let schema ← (Schema.ofProgram program).toOption
      let record ← (schema.record "Account").toOption
      let declaration ← record.function? "due"
      let f ← (schema.check record declaration).toOption
      let c ← (program.compile "Account" "due").toOption
      let code ← (c.code.link c.abi c.header).toOption
      return c.abi.requiredReferences.contains "bank" && f.live.followed.contains "bank") =
        some true := by decide +kernel
  simp only [Option.bind_eq_bind, Option.bind_eq_some_iff, toOption_eq_some, Option.pure_def,
    Option.some.injEq, Bool.and_eq_true, List.contains_iff_mem] at runs
  obtain ⟨program, hp, schema, hs, record, hr, declaration, hd, f, checked, c, hc, code, linked, required,
    followed⟩ := runs
  have live := Program.followsLive_of hs hr hd checked followed
  exact ⟨program, c, code, hp, hc, linked, required, live,
    (required_references_are_touched hc linked).1 "bank" required live⟩

/-- A function that follows a reference in a dead statement only. -/
def deadSource : String :=
  "contract B \x7b id: string; n: u32; \x7d " ++
  "contract A \x7b b: B; @call f(): u32 \x7b return 1; let x = this.b.n; \x7d \x7d"

def deadCall : Call :=
  { Call.empty with receiver := .record [("b", .text "")], others := .record [("B", .list [])] }

def Machine.isLoading (code : LinkedCode) (m : Machine) : Bool :=
  match code[m.place]? with
  | some (.loadThis _) => true
  | _ => false

/-- Where reading a call has been refused for an empty reference, and to which record type. -/
def emptyReference? : Except CallFault Inputs → Option (String × String)
  | .error (.unsuitable path (.emptyReference contract)) => some (path, contract)
  | _ => none

theorem eq_of_emptyReference? {r : Except CallFault Inputs} {path contract : String}
    (h : emptyReference? r = some (path, contract)) :
    r = .error (.unsuitable path (.emptyReference contract)) := by
  unfold emptyReference? at h
  split at h <;> cases h
  rfl

/-- A run that leaves the function and loads no field touches no reference. -/
theorem Compiled.not_touches {c : Compiled} {code : LinkedCode} {s : Surroundings} {receiver : Datum}
    {locals : List Datum} {limit k : Nat} {departure : Departure}
    (leaves : (Machine.run code s limit (start receiver locals)).outcome = .ok departure)
    (ended : after code s k (start receiver locals) = none)
    (idle : ∀ n < k, ∀ a, after code s n (start receiver locals) = some a → a.isLoading code = false)
    (field : String) : ¬ c.Touches code field := by
  intro touches
  have loads : ∃ n a, Reaches code s (start receiver locals) n a ∧
      code[a.place]? = some (.loadThis field) := by
    rcases touches s receiver locals limit departure _ (by rw [← leaves]) with follows | ⟨-, tests⟩
    · obtain ⟨n, a, -, -, -, reached, load, -⟩ := follows
      exact ⟨n, a, reached, load⟩
    · obtain ⟨n, a, -, reached, load, -⟩ := tests
      exact ⟨n, a, reached, load⟩
  obtain ⟨n, a, reached, load⟩ := loads
  have none := idle n (reached.lt_of_after_eq_none ended) a (reaches_iff_after.mp reached)
  rw [isLoading, load] at none
  cases none

/-- The reference in the dead statement is required, and a call without it is refused, but there is a run
that leaves the function without it. -/
theorem dead_reference_is_required : ∃ program c code, Program.read deadSource = .ok program ∧
    program.compile "A" "f" = .ok c ∧ c.code.link c.abi c.header = .ok code ∧
    "b" ∈ c.abi.requiredReferences ∧
    Inputs.ofCall c.abi deadCall = .error (.unsuitable "this.b" (.emptyReference "B")) ∧
    ¬ c.Touches code "b" := by
  let s : Surroundings := ⟨none, [("B", [])]⟩
  let begin := start (.record [("b", .bytes [])]) []
  have runs : (do
      let program ← (Program.read deadSource).toOption
      let c ← (program.compile "A" "f").toOption
      let code ← (c.code.link c.abi c.header).toOption
      let _ ← (Machine.run code s 10 begin).outcome.toOption
      let refused ← emptyReference? (Inputs.ofCall c.abi deadCall)
      return refused == ("this.b", "B") && (c.abi.requiredReferences.contains "b" &&
        ((after code s 2 begin).isNone &&
          (List.range 2).all fun n => (after code s n begin).all fun a => !a.isLoading code))) =
        some true := by decide +kernel
  simp only [Option.bind_eq_bind, Option.bind_eq_some_iff, toOption_eq_some, Option.pure_def,
    Option.some.injEq, Bool.and_eq_true, beq_iff_eq, List.contains_iff_mem, Option.isNone_iff_eq_none,
    List.all_eq_true, List.mem_range] at runs
  obtain ⟨program, hp, c, hc, code, linked, departure, leaves, _, refused, rfl, required, ended, each⟩ :=
    runs
  refine ⟨program, c, code, hp, hc, linked, required, eq_of_emptyReference? refused, ?_⟩
  refine Compiled.not_touches leaves ended (fun n few a reached => ?_) "b"
  have here := each n few
  rw [reached, Option.all_some, Bool.not_eq_true'] at here
  exact here

end Covenant
