import Covenant.Proofs.Code.Lines
import Covenant.Proofs.Machine.Levels
import Covenant.Proofs.Run.Inputs
/-!
Safety of linked code: what the linker has checked keeps every run on accepted inputs from meeting
an instruction without the values, the slot or the field that it needs.

* `Sound`: the invariant of a run, kept by every step (`Sound.step`);
* `linked_code_is_safe`: the heights of the stack are fixed by the code, and no run fails for want of
  a value, of an instruction or of an operation.
-/

namespace Covenant

open LinkedCode Machine

/-- An instruction finds what it refers to: its slot among the locals, its field in the receiver. -/
def Instruction.Finds (m : Machine) : Instruction Nat → Prop
  | .loadLocal slot | .storeLocal slot => slot < m.locals.length
  | .loadThis name => ∃ d, m.receiver.member name = .ok d
  | _ => True

namespace LinkedFunction

/-- An instruction refers only to what the header and the description of the function announce. -/
def Allows (f : LinkedFunction) : Instruction Nat → Prop
  | .loadLocal slot | .storeLocal slot => slot < f.header.locals
  | .loadThis name => (f.abi.thisType.bind (·.field? name)).isSome = true
  | .loose _ _ => False
  | _ => True

theorem Allows.isKnown {f : LinkedFunction} {i : Instruction Nat} (h : f.Allows i) :
    i.isKnown = true := by
  cases i with
  | loose word operand => exact h.elim
  | _ => rfl

theorem checkSlot_eq_ok {header : Header} {slot : Nat} (h : Code.checkSlot header slot = .ok ()) :
    slot < header.locals := by
  unfold Code.checkSlot at h
  split at h
  · assumption
  · cases h

theorem allows_of_linkInstruction {f : LinkedFunction} {labels : List (String × Nat)}
    {i : Instruction String} {j : Instruction Nat} (known : i.isKnown = true)
    (h : Code.linkInstruction f.abi f.header labels i = .ok j) : f.Allows j := by
  cases i with
  | loose word operand => cases known
  | loadLocal slot | storeLocal slot =>
    obtain ⟨⟨⟩, hs, h⟩ := bind_eq_ok.mp h
    obtain rfl := pure_eq_ok.mp h
    exact checkSlot_eq_ok hs
  | loadThis name =>
    obtain ⟨⟨⟩, hs, h⟩ := bind_eq_ok.mp h
    obtain rfl := pure_eq_ok.mp h
    exact Code.checkField_eq_ok hs
  | push _ _ | storeThis _ | jump _ | jumpIfFalse _ | jumpIfTrue _ =>
    obtain ⟨_, -, h⟩ := bind_eq_ok.mp h
    obtain rfl := pure_eq_ok.mp h
    trivial
  | deref _ | loadContext _ =>
    rw [Code.linkInstruction] at h
    split at h
    · cases h
      trivial
    · cases h
  | _ =>
    cases h
    trivial

theorem Parts.allows {abi : Abi} {text : String} {f : LinkedFunction} {code : Code}
    (parts : f.Parts abi text code) {place : Nat} {i : Instruction Nat}
    (h : f.code[place]? = some i) : f.Allows i := by
  obtain ⟨labels, l, -, hl, he, -⟩ := Code.link_eq_ok parts.link
  rw [he, List.getElem?_toArray] at h
  obtain ⟨i', hi', hj⟩ := Code.exists_instruction_of_linkAll hl (List.mem_of_getElem? h)
  have known : (Line.instruction i').isKnown = true := Code.isKnown_of_read parts.read _ hi'
  rw [← parts.described] at hj
  exact allows_of_linkInstruction known hj

structure Checked (f : LinkedFunction) (heights : Nat → Option Nat) : Prop where
  header : Code.checkHeader f.abi f.header = .ok ()
  level : Level f.code heights
  start : heights 0 = some 0
  allowed : ∀ (place : Nat) (i : Instruction Nat), f.code[place]? = some i → f.Allows i

theorem Checked.known {f : LinkedFunction} {heights : Nat → Option Nat} (checked : f.Checked heights) :
    f.code.Known := fun place i h => (checked.allowed place i h).isKnown

theorem Parts.checked {abi : Abi} {text : String} {f : LinkedFunction} {code : Code}
    (parts : f.Parts abi text code) : ∃ heights, f.Checked heights := by
  obtain ⟨_, _, -, -, -, stack⟩ := Code.link_eq_ok parts.link
  obtain ⟨heights, level, start⟩ := level_of_checkStack stack
  have header := parts.header
  rw [← parts.described] at header
  exact ⟨heights, header, level, start, fun _ _ h => parts.allows h⟩

/-! ## The invariant -/

/-- A state that a run can come to: the stack has the height of the place, and slots and fields
are as many as the function announces. -/
structure Sound (f : LinkedFunction) (heights : Nat → Option Nat) (m : Machine) : Prop where
  height : heights m.place = some m.stack.length
  locals : m.locals.length = f.header.locals
  fields : ∀ name, (f.abi.thisType.bind (·.field? name)).isSome = true →
    ∃ d, m.receiver.member name = .ok d

variable {f : LinkedFunction} {heights : Nat → Option Nat} {m : Machine}

/-- The instruction at the place of such a state has the values that it takes. -/
theorem Sound.instruction (sound : Sound f heights m) (checked : f.Checked heights) :
    ∃ i, f.code[m.place]? = some i ∧ i.pops ≤ m.stack.length ∧
      ∀ next ∈ i.successors m.place, heights next = some (m.stack.length - i.pops + i.pushes) :=
  checked.level m.place m.stack.length sound.height

theorem Sound.finds (sound : Sound f heights m) {i : Instruction Nat} (h : f.Allows i) :
    i.Finds m := by
  cases i with
  | loadLocal slot | storeLocal slot =>
    simp only [Instruction.Finds, sound.locals]
    exact h
  | loadThis name => exact sound.fields name h
  | _ => trivial

/-- What a step can come to at such a state. -/
theorem Sound.step_meets (sound : Sound f heights m) (checked : f.Checked heights)
    {s : Surroundings} {r : Except Failure (Option Departure) × Machine}
    (hs : step f.code s m = some r) : ∃ i, f.code[m.place]? = some i ∧
      Meets i { m with steps := m.steps + 1, place := m.place + 1 } r :=
  checked.level.meets checked.known sound.height hs

/-- Every step keeps the invariant. -/
theorem Sound.step (sound : Sound f heights m) (checked : f.Checked heights) {s : Surroundings}
    {m' : Machine} (hs : Machine.step f.code s m = some (.ok none, m')) : Sound f heights m' := by
  obtain ⟨i, hi, moves⟩ := sound.step_meets checked hs
  refine ⟨checked.level.height_of_moves sound.height hi moves, ?_, fun name hn => ?_⟩
  · rw [moves.locals]
    exact sound.locals
  · obtain ⟨d, hd⟩ := sound.fields name hn
    rcases moves.receiver with he | ⟨other, value, fields, he, he'⟩
    · exact ⟨d, he ▸ hd⟩
    · rw [he']
      rw [show m.receiver = .record fields from he] at hd
      exact Datum.member_setField hd

theorem Sound.reaches (sound : Sound f heights m) (checked : f.Checked heights) {s : Surroundings}
    {n : Nat} {m' : Machine} (h : Reaches f.code s m n m') : Sound f heights m' :=
  h.invariant (fun hm hs => hm.step checked hs) sound

/-- A failure at such a state lies in the data, is a message of the program, or says that the caller
is not authorized. -/
theorem Sound.failure (sound : Sound f heights m) (checked : f.Checked heights) {s : Surroundings}
    {failure : Failure} {m' : Machine} (hs : Machine.step f.code s m = some (.error failure, m')) :
    failure.isOfData = true ∨ (∃ message, failure = .aborted message) ∨
      failure = .unauthorized := by
  obtain ⟨i, -, meets⟩ := sound.step_meets checked hs
  rcases meets with h | h | h
  · exact .inl h
  · exact .inr (.inl h)
  · exact .inr (.inr h.1)

/-! ## Runs -/

theorem sound_machine {call : Call} {inputs : Inputs} (h : Inputs.Read f.abi call inputs)
    (checked : f.Checked heights) : Sound f heights (f.machine inputs) where
  height := checked.start
  locals := by
    obtain ⟨-, -, parameters, -, locals⟩ := Code.header_of_checkHeader checked.header
    exact machine_locals_length (Nat.le_trans h.arguments_length_le (parameters ▸ locals))
  fields _ hn := machine_receiver_member h hn

/-- A run fails, if it does, because of its data, with a message of the program, because the caller is
not authorized, or at its limit. -/
theorem Sound.runFrom_failure (sound : Sound f heights m) (checked : f.Checked heights)
    (s : Surroundings) (limit : Datum) (budget : Nat) {failure : Failure}
    (h : (runFrom f.code s limit budget m).outcome = .error failure) :
    failure.isOfData = true ∨ (∃ message, failure = .aborted message) ∨
      failure = .unauthorized ∨ failure = .stepLimit limit := by
  obtain ⟨n, left, m', reached, -, ends⟩ := @runFrom_cases f.code s limit budget m
  have sound' := sound.reaches checked reached
  rw [h] at ends
  cases ends with
  | past hn =>
    obtain ⟨i, hi, -⟩ := sound'.instruction checked
    rw [hi] at hn
    cases hn
  | cutOff => exact .inr (.inr (.inr rfl))
  | fails hs =>
    rcases sound'.failure checked hs with h | h | h
    · exact .inl h
    · exact .inr (.inl h)
    · exact .inr (.inr (.inl h))

/-- A run that fails while it executes is one of the machine. -/
theorem runFrom_of_run {inputs : Inputs} {limit : Nat} {failure : Failure}
    (h : f.run inputs limit = .error (.execution failure)) :
    ∃ s, (runFrom f.code s (.integer limit) limit (f.machine inputs)).outcome = .error failure := by
  by_cases described : inputs.abi = f.abi
  · cases found : recordsOf inputs.others with
    | ok records => exact ⟨_, (run_eq_error_iff described found).mp h⟩
    | error e => simp [run, described, found] at h
  · simp [run, described] at h

end LinkedFunction

/-- Whatever text is linked, the code alone fixes how many values are on the stack at each place, and
every run on accepted inputs finds there the values, the slot and the field that the instruction
needs. It never ends for want of a value, of an instruction or of an operation. -/
theorem linked_code_is_safe {abi : Abi} {text : String} {f : LinkedFunction}
    (h : abi.link text = .ok f) :
    ∃ heights : Nat → Option Nat, ∀ call inputs, Inputs.ofCall abi call = .ok inputs →
      (∀ s n m, Reaches f.code s (f.machine inputs) n m → ∃ i, f.code[m.place]? = some i ∧
        heights m.place = some m.stack.length ∧ i.pops ≤ m.stack.length ∧ i.Finds m) ∧
      ∀ limit failure, f.run inputs limit = .error (.execution failure) →
        failure ≠ .stackUnderflow ∧ failure ≠ .pastEnd ∧ ∀ name, failure ≠ .unknownOperation name := by
  obtain ⟨code, parts⟩ := Abi.parts_of_link h
  obtain ⟨heights, checked⟩ := parts.checked
  refine ⟨heights, fun call inputs hi => ?_⟩
  have read := Inputs.read_of_ofCall hi
  rw [← parts.described] at read
  have sound := LinkedFunction.sound_machine read checked
  constructor
  · intro s n m reached
    have sound' := sound.reaches checked reached
    obtain ⟨i, hi, enough, -⟩ := sound'.instruction checked
    exact ⟨i, hi, sound'.height, enough, sound'.finds (checked.allowed _ i hi)⟩
  · intro limit failure hr
    obtain ⟨s, hf⟩ := LinkedFunction.runFrom_of_run hr
    rcases sound.runFrom_failure checked s _ _ hf with hd | ⟨message, rfl⟩ | rfl | rfl
    · refine ⟨?_, ?_, ?_⟩
      · rintro rfl
        cases hd
      · rintro rfl
        cases hd
      · rintro name rfl
        cases hd
    all_goals exact ⟨nofun, nofun, nofun⟩

/-- A function that counts its argument down and then packs a field of the receiver into an array. -/
def countdown : Abi where
  contract := "R"
  function := "f"
  thisType := some ⟨"R", [("n", .i32)]⟩
  parameterNames := ["k"]
  parameterTypes := [.i32]
  returnType := some .u32
  otherTypes := []
  dependentFields := [("n", .i32)]
  requiredReferences := []
  callPolicy := .anyone
  readPolicy := .anyone

def countdownText : String :=
  ".function R.f params=1 locals=1 returns=1\nlabel \"L\"\nload.local 0\ntruthy\njz \"E\"\n" ++
  "load.local 0\npush.i32 1\nsub.i32\nstore.local 0\njmp \"L\"\nlabel \"E\"\n" ++
  "load.this \"n\"\narray.new 1\narray.len\nret.value\n"

def countdownCall : Call :=
  { Call.empty with receiver := .record [("n", .integer 7)], arguments := .list [.integer 2] }

theorem countdown_is_safe : ∃ f inputs, countdown.link countdownText = .ok f ∧
    Inputs.ofCall countdown countdownCall = .ok inputs ∧
    ∀ s n m, Reaches f.code s (f.machine inputs) n m →
      ∃ i, f.code[m.place]? = some i ∧ i.pops ≤ m.stack.length ∧ i.Finds m := by
  have linked : (countdown.link countdownText).isOk = true := by decide +kernel
  have accepted : (Inputs.ofCall countdown countdownCall).isOk = true := by decide +kernel
  cases hf : countdown.link countdownText with
  | error fault =>
    rw [hf] at linked
    cases linked
  | ok f =>
    cases hi : Inputs.ofCall countdown countdownCall with
    | error fault =>
      rw [hi] at accepted
      cases accepted
    | ok inputs =>
      obtain ⟨heights, safe⟩ := linked_code_is_safe hf
      refine ⟨f, inputs, rfl, rfl, fun s n m reached => ?_⟩
      obtain ⟨i, hi, -, enough, finds⟩ := (safe _ _ hi).1 s n m reached
      exact ⟨i, hi, enough, finds⟩

end Covenant
