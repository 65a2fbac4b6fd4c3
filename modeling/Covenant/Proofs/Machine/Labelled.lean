import Covenant.Proofs.Code.Lines
import Covenant.Proofs.Machine.Places
/-!
Code with its labels in it, and what becomes of a run when they are resolved.

* `Code.course`: running code as it is written, where a label does nothing and costs no step, and a jump goes
  to its label;
* `Code.resolved`: the code without labels, with jumps to places;
* `Code.course_resolved`: both go through the same instructions in the same states, and end alike;
* `labels_only_mark_places`: linking resolves labels and does nothing else to the course of a run.
-/

namespace Covenant

structure Moment (Target : Type) where
  instruction : Instruction Target
  stack : List Datum
  locals : List Datum
  receiver : Datum

structure Course (Target : Type) where
  moments : List (Moment Target)
  ended : Machine.Ended

variable {S T : Type}

def Moment.of (i : Instruction T) (m : Machine) : Moment T := ⟨i, m.stack, m.locals, m.receiver⟩

def Moment.retarget (f : S → T) (moment : Moment S) : Moment T :=
  { moment with instruction := moment.instruction.retarget f }

/-- The course from a moment on, by what its instruction comes to. -/
def Course.onward (moment : Moment T) (rest : Machine → Course T) :
    Except Failure (Option Machine.Departure) × Machine → Course T
  | (.error f, m) => ⟨[moment], ⟨.error f, m⟩⟩
  | (.ok (some departure), m) => ⟨[moment], ⟨.ok departure, m⟩⟩
  | (.ok none, m) => ⟨moment :: (rest m).moments, (rest m).ended⟩

/-- The course of a run of linked code, with a budget of steps left of the given limit. -/
def Machine.course (code : LinkedCode) (s : Surroundings) (limit : Datum) : Nat → Machine → Course Nat
  | budget, m =>
    match code[m.place]? with
    | none => ⟨[], ⟨.error .pastEnd, m⟩⟩
    | some i =>
      let counted := { m with steps := m.steps + 1 }
      match budget with
      | 0 => ⟨[], ⟨.error (.stepLimit limit), counted⟩⟩
      | budget + 1 =>
        Course.onward (.of i m) (fun m => course code s limit budget m)
          ((execute s i).run { counted with place := m.place + 1 })

/-- The end of the course is that of the run. -/
theorem Machine.ended_course (code : LinkedCode) (s : Surroundings) (limit : Datum) (budget : Nat)
    (m : Machine) : (course code s limit budget m).ended = runFrom code s limit budget m := by
  induction budget generalizing m with
  | zero =>
    rw [course, runFrom]
    cases code[m.place]? <;> rfl
  | succ budget ih =>
    rw [course, runFrom]
    cases code[m.place]? with
    | none => rfl
    | some i =>
      dsimp only
      rcases (execute s i).run { m with steps := m.steps + 1, place := m.place + 1 } with ⟨f | (_ | d), m'⟩
      · rfl
      · exact ih m'
      · rfl

def Line.isLabel (name : String) : Line → Bool
  | .label other => other == name
  | .instruction _ => false

namespace Code

def before (code : Code) (name : String) : Code := code.takeWhile fun line => !line.isLabel name

def lineOf (code : Code) (name : String) : Nat := (code.before name).length

def placeOf (code : Code) (name : String) : Nat := (code.before name).size

/-- The code without labels, its jumps going to the places that these have marked. -/
def resolved (code : Code) : LinkedCode :=
  (code.instructions.map (·.retarget code.placeOf)).toArray

/-- The course of a run of code in which places are lines. -/
def course (code : Code) (s : Surroundings) (limit : Datum) (budget : Nat) (m : Machine) : Course String :=
  match _here : code[m.place]? with
  | none => ⟨[], ⟨.error .pastEnd, m⟩⟩
  | some (.label _) => course code s limit budget { m with place := m.place + 1 }
  | some (.instruction i) =>
    let counted := { m with steps := m.steps + 1 }
    match budget with
    | 0 => ⟨[], ⟨.error (.stepLimit limit), counted⟩⟩
    | budget + 1 =>
      Course.onward (.of i m) (fun m => course code s limit budget m)
        ((Machine.execute s (i.retarget code.lineOf)).run { counted with place := m.place + 1 })
termination_by (budget, code.length - m.place)
decreasing_by
  · have inside := (List.getElem?_eq_some_iff.mp _here).1
    exact Prod.Lex.right _ (by omega)
  · exact Prod.Lex.left _ _ (Nat.lt_succ_self _)

/-! ## Lines and places -/

/-- The place of a line: how many instructions stand before it. -/
def placeAt (code : Code) (line : Nat) : Nat := size (code.take line)

/-- The label of a name marks the place of its line. -/
theorem placeAt_lineOf (code : Code) (name : String) :
    code.placeAt (code.lineOf name) = code.placeOf name := by
  have taken : code.take (code.before name).length = code.before name :=
    (List.prefix_iff_eq_take.mp (List.takeWhile_prefix _)).symm
  rw [placeAt, lineOf, taken, placeOf]

variable {code : Code} {line : Nat}

theorem placeAt_succ {l : Line} (h : code[line]? = some l) :
    code.placeAt (line + 1) = code.placeAt line + Code.size [l] := by
  rw [placeAt, placeAt, List.take_add_one, h, size_append]
  rfl

theorem placeAt_of_label {name : String} (h : code[line]? = some (.label name)) :
    code.placeAt (line + 1) = code.placeAt line := placeAt_succ h

theorem placeAt_of_instruction {i : Instruction String} (h : code[line]? = some (.instruction i)) :
    code.placeAt (line + 1) = code.placeAt line + 1 := placeAt_succ h

/-- At the place of a line that is an instruction stands this instruction. -/
theorem resolved_of_instruction {i : Instruction String} (h : code[line]? = some (.instruction i)) :
    code.resolved[code.placeAt line]? = some (i.retarget code.placeOf) := by
  obtain ⟨inside, here⟩ := List.getElem?_eq_some_iff.mp h
  have parts : code.instructions =
      instructions (code.take line) ++ i :: instructions (code.drop (line + 1)) := by
    conv_lhs => rw [← List.take_append_drop line code, List.drop_eq_getElem_cons inside, here]
    rw [instructions_append, instructions]
  have found : code.instructions[code.placeAt line]? = some i := by
    rw [parts, placeAt, ← length_instructions, List.getElem?_append_right (Nat.le_refl _), Nat.sub_self]
    rfl
  rw [resolved, List.getElem?_toArray, List.getElem?_map, found]
  rfl

/-- Behind the last line there is no instruction. -/
theorem resolved_past (h : code[line]? = none) : code.resolved[code.placeAt line]? = none := by
  rw [List.getElem?_eq_none_iff] at h
  rw [resolved, List.getElem?_toArray, List.getElem?_map, placeAt, List.take_of_length_le h,
    ← length_instructions, List.getElem?_eq_none (Nat.le_refl _)]
  rfl

/-! ## Runs -/

/-- A state of a run of the code with its labels as one of the code without them. -/
def atPlace (code : Code) (m : Machine) : Machine := m.moved code.placeAt id

/-- A course of the code with its labels as one of the code without them. -/
def atPlaces (code : Code) (c : Course String) : Course Nat :=
  ⟨c.moments.map (.retarget code.placeOf), ⟨c.ended.outcome, code.atPlace c.ended.machine⟩⟩

/-- An instruction does the same with a jump to a line and to the place of that line. -/
theorem execute_placeOf (code : Code) (s : Surroundings) (i : Instruction String) (m : Machine) :
    (Machine.execute s (i.retarget code.placeOf)).run (code.atPlace m) =
      (((Machine.execute s (i.retarget code.lineOf)).run m).1,
        code.atPlace ((Machine.execute s (i.retarget code.lineOf)).run m).2) := by
  have same := Machine.carries_execute code.placeAt id s (i.retarget code.lineOf) m
  rw [Instruction.retarget_retarget, show code.placeAt ∘ code.lineOf = code.placeOf from
    funext code.placeAt_lineOf] at same
  exact same

/-- Without its labels code goes through the same moments and ends alike. -/
theorem course_resolved (code : Code) (s : Surroundings) (limit : Datum) (budget : Nat) (m : Machine) :
    Machine.course code.resolved s limit budget (code.atPlace m) =
      code.atPlaces (code.course s limit budget m) := by
  fun_induction code.course s limit budget m with
  | case1 budget m past =>
    rw [Machine.course]
    simp only [atPlace, Machine.moved, resolved_past past]
    rfl
  | case2 budget m name here ih =>
    rw [← ih, atPlace, Machine.moved, ← placeAt_of_label here]
    rfl
  | case3 m i here counted =>
    rw [Machine.course]
    simp only [atPlace, Machine.moved, resolved_of_instruction here]
    rfl
  | case4 m i here counted budget ih =>
    have next : ({ code.atPlace m with steps := m.steps + 1, place := code.placeAt m.place + 1 } : Machine) =
        code.atPlace { counted with place := m.place + 1 } := by
      rw [atPlace, atPlace, Machine.moved, Machine.moved, ← placeAt_of_instruction here]
      rfl
    rw [Machine.course]
    simp only [show (code.atPlace m).place = code.placeAt m.place from rfl, resolved_of_instruction here]
    rw [show (code.atPlace m).steps = m.steps from rfl, next, execute_placeOf]
    rcases (Machine.execute s (i.retarget code.lineOf)).run { counted with place := m.place + 1 } with
      ⟨f | (_ | departure), m'⟩
    · rfl
    · simp only [Course.onward, ih, atPlaces, List.map_cons]
      rfl
    · rfl

end Code

/-! ## Linking -/

/-- An instruction with its operand checked and replaced by a value, its label left as it is. -/
def Instruction.loaded (abi : Abi) (header : Header) :
    Instruction String → Except LinkFault (Instruction String)
  | .push kind operand => return .push kind (← Code.literalValue kind operand)
  | .loadThis name => do
    Code.checkField abi "load.this" name
    return .loadThis name
  | .storeThis name => do
    Code.checkField abi "store.this" name
    return .storeThis name
  | .deref contract =>
    if (abi.otherType? contract).isSome then .ok (.deref contract)
    else .error (.unknownRecord contract)
  | .loadLocal slot => do
    Code.checkSlot header slot
    return .loadLocal slot
  | .storeLocal slot => do
    Code.checkSlot header slot
    return .storeLocal slot
  | .loadContext name =>
    if name = "publicKey" then .ok (.loadContext name) else .error (.contextAttribute name)
  | i => .ok i

namespace Code

variable {code : Code} {abi : Abi} {header : Header}

/-- Code with its operands checked and replaced by values, its labels left where they stand. -/
def loaded (abi : Abi) (header : Header) : Code → Except LinkFault Code
  | [] => .ok []
  | .label name :: rest => return .label name :: (← loaded abi header rest)
  | .instruction i :: rest => do
    let first ← i.loaded abi header
    return .instruction first :: (← loaded abi header rest)

def Closed (code : Code) : Prop :=
  ∀ i ∈ code.instructions, ∀ name ∈ i.jumpTarget?, name ∈ code.labelNames

instance : Decidable (Closed code) :=
  inferInstanceAs (Decidable (∀ i ∈ code.instructions, ∀ name ∈ i.jumpTarget?, name ∈ code.labelNames))

theorem linkInstruction_eq_loaded {labels : List (String × Nat)} {mark : String → Nat} {i : Instruction String}
    (marked : ∀ name ∈ i.jumpTarget?, labels.lookup name = some (mark name)) :
    linkInstruction abi header labels i = (·.retarget mark) <$> i.loaded abi header := by
  cases i with
  | jump name | jumpIfFalse name | jumpIfTrue name =>
    rw [linkInstruction, linkTarget, marked name rfl]
    rfl
  | push kind operand =>
    rw [linkInstruction, Instruction.loaded]
    cases literalValue kind operand <;> rfl
  | loadThis name | storeThis name =>
    rw [linkInstruction, Instruction.loaded, checkField]
    split <;> rfl
  | deref name | loadContext name =>
    rw [linkInstruction, Instruction.loaded]
    split <;> rfl
  | loadLocal slot | storeLocal slot =>
    rw [linkInstruction, Instruction.loaded, checkSlot]
    split <;> rfl
  | _ => rfl

/-- To link the instructions is to load the code, and to replace labels in what remains without them. -/
theorem linkAll_eq_loaded {labels : List (String × Nat)} {mark : String → Nat}
    (marked : ∀ i ∈ code.instructions, ∀ name ∈ i.jumpTarget?, labels.lookup name = some (mark name)) :
    linkAll abi header labels code =
      (fun c => (instructions c).map (·.retarget mark)) <$> code.loaded abi header := by
  induction code with
  | nil => rfl
  | cons line rest ih =>
    cases line with
    | label name =>
      rw [linkAll, ih marked, loaded]
      cases loaded abi header rest <;> rfl
    | instruction i =>
      rw [linkAll, ih fun j hj => marked j (List.mem_cons_of_mem _ hj),
        linkInstruction_eq_loaded (marked i List.mem_cons_self), loaded]
      rcases i.loaded abi header with e | first
      · rfl
      · cases loaded abi header rest <;> rfl

theorem placeOf_label (other name : String) (rest : Code) :
    placeOf (.label other :: rest) name = if other = name then 0 else rest.placeOf name := by
  by_cases same : other = name
  · simp [placeOf, before, Line.isLabel, same]
  · simp [placeOf, before, Line.isLabel, same]

theorem placeOf_instruction (i : Instruction String) (rest : Code) (name : String) :
    placeOf (.instruction i :: rest) name = rest.placeOf name + 1 := rfl

/-- Labels stay at their places when code is loaded. -/
theorem placeOf_loaded {c : Code} (h : code.loaded abi header = .ok c) : c.placeOf = code.placeOf := by
  induction code generalizing c with
  | nil =>
    cases h
    rfl
  | cons line rest ih =>
    cases line with
    | label name =>
      obtain ⟨c', hc, h⟩ := bind_eq_ok.mp h
      cases h
      exact funext fun other => by rw [placeOf_label, placeOf_label, ih hc]
    | instruction i =>
      obtain ⟨first, -, h⟩ := bind_eq_ok.mp h
      obtain ⟨c', hc, h⟩ := bind_eq_ok.mp h
      cases h
      exact funext fun other => by rw [placeOf_instruction, placeOf_instruction, ih hc]

/-- Each label of the code is marked with its place. -/
theorem mem_marks {name : String} (present : name ∈ code.labelNames) (place : Nat) :
    (name, place + code.placeOf name) ∈ code.marks place := by
  induction code generalizing place with
  | nil => cases present
  | cons line rest ih =>
    cases line with
    | label other =>
      rw [placeOf_label, marks]
      split
      · next same => exact same ▸ List.mem_cons_self
      · next differ =>
        have later := (List.mem_cons.mp present).resolve_left (Ne.symm differ)
        exact List.mem_cons_of_mem _ (ih later place)
    | instruction i =>
      rw [placeOf_instruction, marks, Nat.add_comm (placeOf rest name) 1, ← Nat.add_assoc]
      exact ih present (place + 1)

/-- Code with different labels, and jumps to these only, is linked by loading and resolving it. -/
theorem link_eq_resolved (unique : code.labelNames.Nodup) (closed : code.Closed) (abi : Abi) (header : Header) :
    code.link abi header = do
      let c ← code.loaded abi header
      LinkedCode.checkStack c.resolved
      return c.resolved := by
  have marked : ∀ i ∈ code.instructions, ∀ name ∈ i.jumpTarget?,
      (code.marks 0).reverse.lookup name = some (code.placeOf name) := by
    intro i hi name hn
    refine lookup_of_mem ?_ (List.mem_reverse.mpr ?_)
    · rwa [List.map_reverse, List.nodup_reverse, marks_map_fst]
    · have here := mem_marks (closed i hi name hn) 0
      rwa [Nat.zero_add] at here
  rw [link, places_of_nodup unique, ok_bind, linkAll_eq_loaded marked]
  cases h : code.loaded abi header with
  | error e => rfl
  | ok c =>
    rw [ok_bind, resolved, placeOf_loaded h]
    rfl

end Code

/-- Labels do nothing but mark places: linking puts the values of operands into the code and resolves its
labels, and when labels are resolved, a run goes through the same instructions on the same stacks, locals and
receivers, and ends in the same way after as many steps. -/
theorem labels_only_mark_places {code : Code} (unique : code.labelNames.Nodup) (closed : code.Closed) :
    (∀ abi header, code.link abi header = do
      let c ← code.loaded abi header
      LinkedCode.checkStack c.resolved
      return c.resolved) ∧
    ∀ c, c = code ∨ (∃ abi header, code.loaded abi header = .ok c) → ∀ s limit budget m,
      let labelled := c.course s limit budget m
      Machine.course c.resolved s limit budget (c.atPlace m) = c.atPlaces labelled ∧
        Machine.runFrom c.resolved s limit budget (c.atPlace m) =
          ⟨labelled.ended.outcome, c.atPlace labelled.ended.machine⟩ := by
  refine ⟨Code.link_eq_resolved unique closed, fun c _ s limit budget m => ?_⟩
  have same := c.course_resolved s limit budget m
  exact ⟨same, by rw [← Machine.ended_course, same]; rfl⟩

/-- A jump back over two labels in a row, and one to a label behind the last instruction. -/
theorem labels_only_mark_places_loop :
    let code : Code := [.label "first", .label "again", .op (.jumpIfFalse "first"), .op (.jump "end"), .label "end"]
    let m : Machine := ⟨[.boolean false, .boolean true], [], .null, 0, 0, 0⟩
    code.labelNames.Nodup ∧ code.Closed ∧
      Machine.course #[.jumpIfFalse 0, .jump 2] ⟨none, []⟩ .null 9 m =
        code.atPlaces (code.course ⟨none, []⟩ .null 9 m) ∧
      (code.course ⟨none, []⟩ .null 9 m).ended.machine.steps = 3 := by
  intro code m
  have unique : code.labelNames.Nodup := by decide
  have closed : code.Closed := by decide
  have same := ((labels_only_mark_places unique closed).2 code (.inl rfl) ⟨none, []⟩ .null 9 m).1
  exact ⟨unique, closed, same, (congrArg (·.ended.machine.steps) same).symm⟩

end Covenant
