import Covenant.Code.StackWalk
import Covenant.Proofs.Machine.Effect
import Covenant.Proofs.Machine.Steps
/-!
What an instruction can come to when the stack holds the values that it takes:

* `execute_meets`: it goes on at one of its successors with a stack of the height that the table
  of instructions gives, it leaves the function, or it fails for a reason that lies in the data;
* `Moves`: what an instruction that goes on does to the stack, the place, the locals and the
  receiver.
-/

namespace Covenant

/-- A failure that lies in the data, not in the shape of the code. -/
def Failure.isOfData : Failure → Bool
  | .misuse _ | .divisionByZero | .overflow _ _ | .absentKey _ | .outOfBounds _ _
  | .unsupplied _ _ => true
  | _ => false

def FailsByData {α : Type} (r : Except Failure α) : Prop := ∀ f, r = .error f → f.isOfData = true

namespace FailsByData

variable {α β : Type}

theorem ok (a : α) : FailsByData (.ok a) := by
  intro f h
  cases h

theorem error {f : Failure} (hf : f.isOfData = true) : FailsByData (.error f : Except Failure α) := by
  intro f' h
  cases h
  exact hf

theorem lift (r : Except Misuse α) : FailsByData (Failure.lift r) := by
  cases r with
  | ok a => exact ok a
  | error why => exact error rfl

theorem bind {r : Except Failure α} {g : α → Except Failure β} (hr : FailsByData r)
    (hg : ∀ a, FailsByData (g a)) : FailsByData (r >>= g) := by
  cases r with
  | ok a => exact hg a
  | error e => exact error (hr e rfl)

theorem ite {c : Prop} [Decidable c] {a b : Except Failure α} (ha : FailsByData a)
    (hb : FailsByData b) : FailsByData (if c then a else b) := by
  split
  · exact ha
  · exact hb

theorem checkPlace (index : Datum) (length : Except Misuse Nat) :
    FailsByData (Datum.checkPlace index length) :=
  (lift _).bind fun _ => (lift _).bind fun _ => ite (ok _) (error rfl)

theorem element (d index : Datum) : FailsByData (d.element index) := by
  refine (checkPlace _ _).bind fun _ => ?_
  split
  · exact error rfl
  · refine (lift _).bind fun i => (lift _).bind fun parts => ?_
    cases parts[i]? with
    | none => exact error rfl
    | some part => exact ok part

theorem withElement (d index value : Datum) : FailsByData (d.withElement index value) :=
  (lift _).bind fun _ => (checkPlace _ _).bind fun _ => (lift _).bind fun _ => ok _

theorem arith (origin : Origin) (op : Arith) (p : Primitive) (a b : Datum) :
    FailsByData (Datum.arith origin op p a b) := by
  refine ite (error rfl) ((lift _).bind fun r => ite (ok r) (ite (lift _) ?_))
  cases p.range? with
  | none => exact error rfl
  | some range => exact (lift _).bind fun _ => ite (ok r) (error rfl)

theorem recordOf (s : Surroundings) (contract : String) (d : Datum) :
    FailsByData (s.recordOf contract d) := by
  unfold Surroundings.recordOf
  split
  · split <;> first | exact error rfl | exact ok _
  · exact error rfl

theorem slotValue (locals : List Datum) (slot : Nat) :
    FailsByData (Machine.slotValue locals slot) := by
  unfold Machine.slotValue
  split
  · exact ok _
  · exact error rfl

end FailsByData

def Instruction.isKnown {Target : Type} : Instruction Target → Bool
  | .loose _ _ => false
  | _ => true

namespace Machine

structure Moves (i : Instruction Nat) (m m' : Machine) : Prop where
  height : m'.stack.length = m.stack.length - i.pops + i.pushes
  /-- what lies below the values that it takes stays -/
  below : m'.stack.drop i.pushes = m.stack.drop i.pops
  next : ∀ place, m.place = place + 1 → m'.place ∈ i.successors place
  locals : m'.locals.length = m.locals.length
  steps : m'.steps = m.steps
  receiver : m'.receiver = m.receiver ∨ ∃ name d fields, m.receiver = .record fields ∧
    m'.receiver = .record (setField name d fields)

def Meets (i : Instruction Nat) (m : Machine) :
    Except Failure (Option Departure) × Machine → Prop
  | (.ok none, m') => Moves i m m'
  | (.ok (some _), _) => i.isLast = true
  | (.error f, _) => f.isOfData = true ∨ (∃ message, f = .aborted message) ∨
      (f = .unauthorized ∧ i = .abortUnauthorized)

/-- An instruction that goes on at the next place and leaves locals and receiver alone. -/
theorem Moves.straight {i : Instruction Nat} {st rest l : List Datum} {r : Datum}
    {p n c c' : Nat} (next : ∀ place, i.successors place = [place + 1])
    (height : rest.length = st.length - i.pops + i.pushes)
    (below : rest.drop i.pushes = st.drop i.pops) :
    Moves i ⟨st, l, r, p, n, c⟩ ⟨rest, l, r, p, n, c'⟩ where
  height := height
  below := below
  next := by
    intro place h
    rw [next, List.mem_singleton]
    exact h
  locals := rfl
  steps := rfl
  receiver := .inl rfl

/-- The same for an instruction whose only effect is to put a value in the place of those that it
takes. -/
theorem Meets.answer {i : Instruction Nat} {st rest l : List Datum} {r : Datum} {p n c c' : Nat}
    {result : Except Failure Datum} (next : ∀ place, i.successors place = [place + 1])
    (hr : FailsByData result) (one : i.pushes = 1) (taken : st.drop i.pops = rest) :
    Meets i ⟨st, l, r, p, n, c⟩ (Machine.answer result ⟨rest, l, r, p, n, c'⟩) := by
  cases result with
  | ok d =>
    refine Moves.straight next ?_ ?_
    · rw [List.length_cons, one, ← taken, List.length_drop]
    · rw [one, taken, List.drop_one, List.tail_cons]
  | error f => exact .inl (hr f rfl)

theorem Meets.storing {i : Instruction Nat} {m m' : Machine} {place : Place} {d : Datum}
    {r : Except Failure (Option Departure) × Machine} (h : Meets i m r) :
    Meets i m (Machine.storing place d m' r) := by
  cases d <;> first | exact h | exact .inl rfl

/-- A conditional jump goes on at the next place or at its target. -/
theorem Moves.branch {i : Instruction Nat} {target : Nat} {a : Datum} {st l : List Datum} {r : Datum}
    {p p' n c : Nat} (next : ∀ place, i.successors place = [place + 1, target])
    (height : i.pops = 1 ∧ i.pushes = 0) (hp : p' = p ∨ p' = target) :
    Moves i ⟨a :: st, l, r, p, n, c⟩ ⟨st, l, r, p', n, c⟩ where
  height := by simp [height]
  below := by rw [height.1, height.2, List.drop_zero, List.drop_one, List.tail_cons]
  next := by
    intro place h
    rw [next]
    rcases hp with rfl | rfl
    · simp_all
    · simp
  locals := rfl
  steps := rfl
  receiver := .inl rfl

theorem exists_cons {st : List Datum} (h : 1 ≤ st.length) : ∃ a rest, st = a :: rest :=
  List.exists_cons_of_length_pos h

theorem exists_two {st : List Datum} (h : 2 ≤ st.length) : ∃ b a rest, st = b :: a :: rest := by
  obtain ⟨b, st, rfl⟩ := exists_cons (by omega : 1 ≤ st.length)
  obtain ⟨a, st, rfl⟩ := exists_cons (by simpa using h : 1 ≤ st.length)
  exact ⟨b, a, st, rfl⟩

section
variable {m : Machine}

theorem Meets.storeThis (s : Surroundings) (name : String) (enough : 1 ≤ m.stack.length) :
    Meets (.storeThis name) m ((execute s (.storeThis name)).run m) := by
  obtain ⟨st, l, r, p, n, c⟩ := m
  obtain ⟨a, st, rfl⟩ := exists_cons enough
  rw [execute_storeThis]
  refine .storing ?_
  cases r with
  | record fields =>
    exact ⟨rfl, rfl, fun place h => List.mem_singleton.mpr h, rfl, rfl,
      .inr ⟨name, a, fields, rfl, rfl⟩⟩
  | _ => exact .inl rfl

theorem Meets.storeLocal (s : Surroundings) (slot : Nat) (enough : 1 ≤ m.stack.length) :
    Meets (.storeLocal slot) m ((execute s (.storeLocal slot)).run m) := by
  obtain ⟨st, l, r, p, n, c⟩ := m
  obtain ⟨a, st, rfl⟩ := exists_cons enough
  rw [execute_storeLocal]
  split
  · exact ⟨rfl, rfl, fun place h => List.mem_singleton.mpr h, List.length_set, rfl, .inl rfl⟩
  · exact .inl rfl

theorem Meets.arrayNew (s : Surroundings) {count : Nat} (enough : count ≤ m.stack.length) :
    Meets (.arrayNew count) m ((execute s (.arrayNew count)).run m) := by
  obtain ⟨st, l, r, p, n, c⟩ := m
  obtain ⟨items, rest, rfl, rfl⟩ : ∃ items rest, st = List.reverse items ++ rest ∧
      count = items.length :=
    ⟨(st.take count).reverse, st.drop count, by simp,
      by rw [List.length_reverse, List.length_take, Nat.min_eq_left enough]⟩
  rw [execute_arrayNew]
  exact .answer (fun _ => rfl) (.ok _) rfl (by simp [Instruction.pops])

theorem Meets.arith (s : Surroundings) (op : Arith) (type : Primitive)
    (enough : (Instruction.arith op type : Instruction Nat).pops ≤ m.stack.length) :
    Meets (.arith op type) m ((execute s (.arith op type)).run m) := by
  obtain ⟨st, l, r, p, n, c⟩ := m
  by_cases h : op = .neg
  · subst h
    obtain ⟨a, st, rfl⟩ := exists_cons enough
    rw [execute_negate]
    exact .answer (fun _ => rfl) (.arith _ _ _ _ _) rfl rfl
  · have two : (Instruction.arith op type : Instruction Nat).pops = 2 := by
      cases op <;> first | rfl | exact absurd rfl h
    rw [two] at enough
    obtain ⟨b, a, st, rfl⟩ := exists_two enough
    rw [execute_arith s st l r p n c h]
    exact .answer (fun _ => rfl) (.arith _ _ _ _ _) rfl (by rw [two]; rfl)

end

/-- What comes of a known instruction when the stack holds what it takes. -/
theorem execute_meets (s : Surroundings) {i : Instruction Nat} {m : Machine}
    (known : i.isKnown = true) (enough : i.pops ≤ m.stack.length) :
    Meets i m ((execute s i).run m) := by
  obtain ⟨st, l, r, p, n, c⟩ := m
  cases i with
  | push kind d =>
    rw [execute_push]
    exact .answer (fun _ => rfl) (.ok d) rfl rfl
  | loadThis name =>
    rw [execute_loadThis]
    exact .answer (fun _ => rfl) (.lift _) rfl rfl
  | storeThis name => exact .storeThis s name enough
  | loadLocal slot =>
    rw [execute_loadLocal]
    exact .answer (fun _ => rfl) (.slotValue l slot) rfl rfl
  | storeLocal slot => exact .storeLocal s slot enough
  | loadContext name =>
    rw [execute_loadContext]
    exact .answer (fun _ => rfl) (.ok _) rfl rfl
  | getField name =>
    obtain ⟨a, st, rfl⟩ := exists_cons enough
    rw [execute_getField]
    exact .answer (fun _ => rfl) (.lift _) rfl rfl
  | setField name =>
    obtain ⟨v, a, st, rfl⟩ := exists_two enough
    rw [execute_setField]
    exact .storing (.answer (fun _ => rfl) (.lift _) rfl rfl)
  | deref contract =>
    obtain ⟨a, st, rfl⟩ := exists_cons enough
    rw [execute_deref]
    exact .answer (fun _ => rfl) (.recordOf s contract a) rfl rfl
  | arrayNew count => exact .arrayNew s enough
  | arrayLength =>
    obtain ⟨a, st, rfl⟩ := exists_cons enough
    rw [execute_arrayLength]
    exact .answer (fun _ => rfl) (.lift _) rfl rfl
  | arrayGet =>
    obtain ⟨b, a, st, rfl⟩ := exists_two enough
    rw [execute_arrayGet]
    exact .answer (fun _ => rfl) (.element a b) rfl rfl
  | arraySet =>
    obtain ⟨v, st, rfl⟩ := exists_cons (Nat.le_trans (by decide) enough)
    obtain ⟨b, a, st, rfl⟩ := exists_two (Nat.le_of_succ_le_succ enough)
    rw [execute_arraySet]
    exact .storing (.answer (fun _ => rfl) (.withElement a b v) rfl rfl)
  | arrayPush =>
    obtain ⟨v, a, st, rfl⟩ := exists_two enough
    rw [execute_arrayPush]
    exact .storing (.answer (fun _ => rfl) (.lift _) rfl rfl)
  | arrayIndexOf =>
    obtain ⟨b, a, st, rfl⟩ := exists_two enough
    rw [execute_arrayIndexOf]
    exact .answer (fun _ => rfl) (.lift _) rfl rfl
  | arrayIncludes =>
    obtain ⟨b, a, st, rfl⟩ := exists_two enough
    rw [execute_arrayIncludes]
    exact .answer (fun _ => rfl) (.lift _) rfl rfl
  | textLength =>
    obtain ⟨a, st, rfl⟩ := exists_cons enough
    rw [execute_textLength]
    exact .answer (fun _ => rfl) (.lift _) rfl rfl
  | concat =>
    obtain ⟨b, a, st, rfl⟩ := exists_two enough
    rw [execute_concat]
    exact .answer (fun _ => rfl) (.lift _) rfl rfl
  | compare k =>
    obtain ⟨b, a, st, rfl⟩ := exists_two enough
    rw [execute_compare]
    exact .answer (fun _ => rfl) (.lift _) rfl rfl
  | not =>
    obtain ⟨a, st, rfl⟩ := exists_cons enough
    rw [execute_not]
    exact .answer (fun _ => rfl) (.ok _) rfl rfl
  | truthy =>
    obtain ⟨a, st, rfl⟩ := exists_cons enough
    rw [execute_truthy]
    exact .answer (fun _ => rfl) (.ok _) rfl rfl
  | keyMatch =>
    obtain ⟨b, a, st, rfl⟩ := exists_two enough
    rw [execute_keyMatch]
    exact .answer (fun _ => rfl) (.ok _) rfl rfl
  | jump target =>
    rw [execute_jump]
    exact ⟨rfl, rfl, fun _ _ => List.mem_singleton.mpr rfl, rfl, rfl, .inl rfl⟩
  | jumpIfFalse target =>
    obtain ⟨a, st, rfl⟩ := exists_cons enough
    rw [execute_jumpIfFalse]
    exact .branch (fun _ => rfl) ⟨rfl, rfl⟩ (by split <;> simp)
  | jumpIfTrue target =>
    obtain ⟨a, st, rfl⟩ := exists_cons enough
    rw [execute_jumpIfTrue]
    exact .branch (fun _ => rfl) ⟨rfl, rfl⟩ (by split <;> simp)
  | dup =>
    obtain ⟨a, st, rfl⟩ := exists_cons enough
    rw [execute_dup]
    exact .straight (fun _ => rfl) rfl rfl
  | drop =>
    obtain ⟨a, st, rfl⟩ := exists_cons enough
    rw [execute_drop]
    exact .straight (fun _ => rfl) rfl rfl
  | abort =>
    obtain ⟨a, st, rfl⟩ := exists_cons enough
    rw [execute_abort]
    exact .inr (.inl ⟨_, rfl⟩)
  | abortUnauthorized =>
    rw [execute_abortUnauthorized]
    exact .inr (.inr ⟨rfl, rfl⟩)
  | leave => exact rfl
  | leaveValue =>
    obtain ⟨a, st, rfl⟩ := exists_cons enough
    rw [execute_leaveValue]
    exact rfl
  | arith op type => exact .arith s op type enough
  | loose word operand => cases known

end Machine
end Covenant
