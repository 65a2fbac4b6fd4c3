import Covenant.Proofs.Code.Lines
import Covenant.Proofs.Datum.Wholeness
import Covenant.Proofs.Machine.Effect
import Covenant.Proofs.Machine.Steps
/-!
Absent keys in the data of a run.

* `Machine.Filled`: nothing is absent in the receiver, and nothing inside a value on the stack or a local;
* `Machine.GathersAbsent`: the next instruction makes a list with an absent item;
* `Machine.Filled.execute`: every other instruction leaves a filled state filled;
* `Machine.Filled.reaches`: so does a run that makes no such list.
-/

namespace Covenant

/-- The records that references stand for have nothing absent in them. -/
def Surroundings.Whole (s : Surroundings) : Prop :=
  ∀ {contract : String} {d e : Datum}, s.recordOf contract d = .ok e → e.Whole

/-- Known instructions whose operands are not absent. -/
def LinkedCode.Whole (code : LinkedCode) : Prop :=
  ∀ (place : Nat) (i : Instruction Nat), code[place]? = some i → i.isKnown = true ∧
    ∀ kind d, i = .push kind d → d.Whole

theorem Surroundings.filled_caller (s : Surroundings) : s.caller.Filled := by
  unfold Surroundings.caller
  split
  · exact (Datum.whole_key _).filled
  · exact Datum.filled_null

namespace Machine

/-- A state with nothing absent in the receiver, and nothing inside its other data. -/
structure Filled (m : Machine) : Prop where
  stack : ∀ d ∈ m.stack, d.Filled
  locals : ∀ d ∈ m.locals, d.Filled
  receiver : m.receiver.Whole

/-- The next instruction makes a list with an absent item. -/
def GathersAbsent (code : LinkedCode) (m : Machine) : Prop :=
  ∃ count, code[m.place]? = some (.arrayNew count) ∧ .null ∈ m.stack.take count

/-! ## Computations -/

/-- A computation on a filled state leaves it filled, and what it yields has a property. -/
def Fills {α : Type} (P : α → Prop) (x : Execution α) : Prop :=
  ∀ m : Machine, m.Filled → (x.run m).2.Filled ∧ ∀ a, (x.run m).1 = .ok a → P a

namespace Fills

variable {α β : Type} {P : α → Prop} {Q : β → Prop}

theorem pure {a : α} (h : P a) : Fills P (Pure.pure a) := by
  refine fun m filled => ⟨filled, fun b hb => ?_⟩
  cases hb
  exact h

theorem throw (failure : Failure) : Fills P (MonadExcept.throw failure) := fun _ filled => ⟨filled, nofun⟩

theorem bind {x : Execution α} {g : α → Execution β} (hx : Fills P x) (hg : ∀ a, P a → Fills Q (g a)) :
    Fills Q (x >>= g) := by
  intro m filled
  obtain ⟨filled, yields⟩ := hx m filled
  rw [run_bind]
  generalize x.run m = r at filled yields
  rcases r with ⟨failure | a, m'⟩
  · exact ⟨filled, nofun⟩
  · exact hg a (yields a rfl) m' filled

theorem pop : Fills Datum.Filled pop := by
  rintro ⟨st, l, r, p, n, c⟩ filled
  cases st with
  | nil => exact ⟨filled, nofun⟩
  | cons d st =>
    obtain ⟨first, others⟩ := List.forall_mem_cons.mp filled.stack
    refine ⟨⟨others, filled.locals, filled.receiver⟩, fun a ha => ?_⟩
    cases ha
    exact first

theorem push {d : Datum} (h : d.Filled) : Fills (fun _ => True) (push d) :=
  fun _ filled => ⟨⟨List.forall_mem_cons.mpr ⟨h, filled.stack⟩, filled.locals, filled.receiver⟩,
    fun _ _ => trivial⟩

theorem goto (place : Nat) : Fills (fun _ => True) (goto place) :=
  fun _ filled => ⟨⟨filled.stack, filled.locals, filled.receiver⟩, fun _ _ => trivial⟩

theorem nextOrigin : Fills (fun _ => True) nextOrigin :=
  fun _ filled => ⟨⟨filled.stack, filled.locals, filled.receiver⟩, fun _ _ => trivial⟩

theorem require (x : Except Misuse α) : Fills (fun a => x = .ok a) (require x) := by
  cases x with
  | ok a => exact .pure rfl
  | error why => exact .throw _

theorem attempt (x : Except Failure Datum) : Fills (fun a => x = .ok a) (attempt x) := by
  cases x with
  | ok a => exact .pure rfl
  | error why => exact .throw _

/-- What is stored is not absent. -/
theorem popStored (place : Place) : Fills Datum.Whole (popStored place) := by
  refine .bind .pop fun d filled => ?_
  cases d with
  | null => exact .throw _
  | _ => exact .pure (filled.whole nofun)

/-- Going on without a value. -/
theorem next {P : Option Departure → Prop} (h : P none) : Fills P (Pure.pure none) := .pure h

/-- A computation that ends with a value on the stack. -/
theorem pushing {x : Execution α} (hx : Fills P x) {g : α → Datum} (each : ∀ a, P a → (g a).Filled) :
    Fills (fun _ : Option Departure => True) (do Machine.push (g (← x)); return none) :=
  .bind hx fun a ha => .bind (.push (each a ha)) fun _ _ => .pure trivial

theorem requiring {r : Except Misuse Datum} (whole : ∀ d, r = .ok d → d.Whole) :
    Fills (fun _ : Option Departure => True) (do Machine.push (← Machine.require r); return none) :=
  .pushing (.require r) fun d hd => (whole d hd).filled

theorem attempting {r : Except Failure Datum} (whole : ∀ d, r = .ok d → d.Whole) :
    Fills (fun _ : Option Departure => True) (do Machine.push (← Machine.attempt r); return none) :=
  .pushing (.attempt r) fun d hd => (whole d hd).filled

theorem storeThis (s : Surroundings) (name : String) :
    Fills (fun _ => True) (execute s (.storeThis name)) := by
  refine .bind (.popStored _) fun d hd => fun m filled => ?_
  obtain ⟨st, l, r, p, n, c⟩ := m
  cases r with
  | record fields =>
    refine ⟨⟨filled.stack, filled.locals, Datum.whole_record.mpr fun m hm => ?_⟩, fun _ _ => trivial⟩
    rcases mem_of_mem_setField hm with rfl | old
    · exact hd
    · exact Datum.whole_record.mp filled.receiver m old
  | _ => exact ⟨filled, fun _ _ => trivial⟩

theorem loadLocal (s : Surroundings) (slot : Nat) :
    Fills (fun _ => True) (execute s (.loadLocal slot)) := by
  intro m filled
  rw [execute_loadLocal, slotValue]
  split
  next d here =>
    exact ⟨⟨List.forall_mem_cons.mpr ⟨filled.locals d (List.mem_of_getElem? here), filled.stack⟩,
      filled.locals, filled.receiver⟩, fun _ _ => trivial⟩
  next => exact ⟨filled, fun _ _ => trivial⟩

theorem storeLocal (s : Surroundings) (slot : Nat) :
    Fills (fun _ => True) (execute s (.storeLocal slot)) := by
  rintro ⟨st, l, r, p, n, c⟩ filled
  cases st with
  | nil => exact ⟨filled, fun _ _ => trivial⟩
  | cons d st =>
    obtain ⟨first, others⟩ := List.forall_mem_cons.mp filled.stack
    rw [execute_storeLocal]
    split
    · refine ⟨⟨others, fun e he => ?_, filled.receiver⟩, fun _ _ => trivial⟩
      rcases List.mem_or_eq_of_mem_set he with old | rfl
      · exact filled.locals e old
      · exact first
    · exact ⟨⟨others, filled.locals, filled.receiver⟩, fun _ _ => trivial⟩

theorem arith (s : Surroundings) (op : Arith) (type : Primitive) :
    Fills (fun _ => True) (execute s (.arith op type)) := by
  cases op with
  | neg =>
    exact .bind .pop fun a ha => .bind .nextOrigin fun o _ => .attempting fun e he =>
      ha.arith Datum.filled_null he
  | _ =>
    exact .bind .pop fun b hb => .bind .pop fun a ha => .bind .nextOrigin fun o _ =>
      .attempting fun e he => ha.arith hb he

end Fills

/-! ## The instructions -/

theorem fills_execute {s : Surroundings} (whole : s.Whole) {i : Instruction Nat} (known : i.isKnown = true)
    (operand : ∀ kind d, i = .push kind d → d.Whole) (other : ∀ count, i ≠ .arrayNew count) :
    Fills (fun _ => True) (execute s i) := by
  cases i with
  | loose => cases known
  | push kind d => exact .bind (.push (operand kind d rfl).filled) fun _ _ => .next trivial
  | loadThis name =>
    intro m filled
    exact Fills.requiring (fun e he => filled.receiver.filled.member he) m filled
  | storeThis name => exact .storeThis s name
  | loadContext name => exact .bind (.push s.filled_caller) fun _ _ => .next trivial
  | loadLocal slot => exact .loadLocal s slot
  | storeLocal slot => exact .storeLocal s slot
  | getField name => exact .bind .pop fun d filled => .requiring fun e he => filled.member he
  | setField name =>
    exact .bind (.popStored _) fun v whole => .bind .pop fun d filled => .requiring fun e he =>
      filled.withMember whole he
  | deref contract =>
    refine .bind .pop fun d _ => ?_
    rw [lookUp_eq_attempt]
    exact .attempting fun e he => whole he
  | arrayNew count => exact absurd rfl (other count)
  | arrayLength | textLength =>
    exact .bind .pop fun d _ => .pushing (.require _) fun n _ => (Datum.whole_integer n).filled
  | arrayGet =>
    exact .bind .pop fun i _ => .bind .pop fun d filled => .attempting fun e he => filled.element he
  | arraySet =>
    exact .bind (.popStored _) fun v whole => .bind .pop fun i _ => .bind .pop fun d filled =>
      .attempting fun e he => filled.withElement whole he
  | arrayPush =>
    exact .bind (.popStored _) fun v whole => .bind .pop fun d filled => .requiring fun e he =>
      filled.appended whole he
  | arrayIndexOf =>
    exact .bind .pop fun t _ => .bind .pop fun d _ => .requiring fun e he => Datum.whole_of_indexOf he
  | arrayIncludes =>
    exact .bind .pop fun t _ => .bind .pop fun d _ => .pushing (.require _) fun b _ =>
      (Datum.whole_boolean b).filled
  | concat =>
    exact .bind .pop fun b hb => .bind .pop fun a ha => .bind .nextOrigin fun o _ => .requiring fun e he =>
      ha.plus hb he
  | compare k =>
    refine .bind .pop fun b _ => .bind .pop fun a _ => ?_
    rw [compared_eq_require]
    exact .pushing (.require _) fun b _ => (Datum.whole_boolean b).filled
  | keyMatch =>
    exact .bind .pop fun b _ => .bind .pop fun a _ => .bind (.push (Datum.whole_boolean _).filled) fun _ _ =>
      .next trivial
  | not | truthy =>
    exact .bind .pop fun d _ => .bind (.push (Datum.whole_boolean _).filled) fun _ _ => .next trivial
  | jump target => exact .bind (.goto target) fun _ _ => .next trivial
  | jumpIfFalse target | jumpIfTrue target =>
    refine .bind .pop fun d _ => ?_
    split
    · exact .bind (.goto target) fun _ _ => .next trivial
    · exact .next trivial
  | dup =>
    exact .bind .pop fun d filled => .bind (.push filled) fun _ _ => .bind (.push filled) fun _ _ =>
      .next trivial
  | drop => exact .bind .pop fun d _ => .next trivial
  | abort => exact .bind .pop fun d _ => .throw _
  | abortUnauthorized => exact .throw _
  | leave => exact .pure trivial
  | leaveValue => exact .bind .pop fun d _ => .pure trivial
  | arith op type => exact .arith s op type

/-- A list is whole when none of its items is absent. -/
theorem Filled.execute_arrayNew {s : Surroundings} {m : Machine} (h : m.Filled) {count : Nat}
    (present : .null ∉ m.stack.take count) : ((execute s (.arrayNew count)).run m).2.Filled := by
  obtain ⟨taken, few, left⟩ : ∃ n, n ≤ count ∧ ((execute s (.arrayNew count)).run m).2 =
      { m with stack := .list (m.stack.take n).reverse :: m.stack.drop n } := by
    refine ⟨itemCount count m.stack.length, ?_, rfl⟩
    unfold itemCount
    split <;> omega
  rw [left]
  refine ⟨List.forall_mem_cons.mpr ⟨?_, fun d hd => h.stack d (List.mem_of_mem_drop hd)⟩, h.locals,
    h.receiver⟩
  refine Datum.Whole.filled (Datum.whole_list.mpr fun d hd => ?_)
  have own := List.mem_reverse.mp hd
  refine (h.stack d (List.mem_of_mem_take own)).whole ?_
  rintro rfl
  exact present (List.take_subset_take_left _ few own)

/-- The container in which an instruction stores the value on top of the stack. -/
def storesIn? : Instruction Nat → Option Place
  | .storeThis name | .setField name => some (.field name)
  | .arraySet | .arrayPush => some .element
  | _ => none

/-- An absent key is not stored. -/
theorem fails_of_absent {code : LinkedCode} {s : Surroundings} {m : Machine} {i : Instruction Nat}
    {place : Place} (here : code[m.place]? = some i) (stores : storesIn? i = some place) {rest : List Datum}
    (top : m.stack = .null :: rest) : Fails code s m (.absentKey place) := by
  obtain ⟨st, l, r, p, n, c⟩ := m
  cases top
  refine ⟨⟨rest, l, r, p + 1, n + 1, c⟩, ?_⟩
  rw [step_of_instruction here]
  cases i with
  | storeThis | setField | arraySet | arrayPush =>
    cases stores
    rfl
  | _ => cases stores

/-! ## Runs -/

variable {code : LinkedCode} {s : Surroundings}

/-- A step leaves a filled state filled unless it makes a list with an absent item. -/
theorem Filled.step {m m' : Machine} (h : m.Filled) (whole : code.Whole) (records : s.Whole)
    (present : ¬ m.GathersAbsent code) {r : Except Failure (Option Departure)}
    (hs : step code s m = some (r, m')) : m'.Filled := by
  obtain ⟨i, hi, made⟩ := instruction_of_step hs
  obtain ⟨known, operand⟩ := whole _ i hi
  have begun : Filled { m with steps := m.steps + 1, place := m.place + 1 } := ⟨h.stack, h.locals, h.receiver⟩
  have ended : ((execute s i).run { m with steps := m.steps + 1, place := m.place + 1 }).2.Filled := by
    by_cases list : ∃ count, i = .arrayNew count
    · obtain ⟨count, rfl⟩ := list
      exact begun.execute_arrayNew fun absent => present ⟨count, hi, absent⟩
    · exact (fills_execute records known operand (fun count same => list ⟨count, same⟩) _ begun).1
  rwa [made] at ended

/-- A run from a filled state stays in filled states, or has made a list with an absent item. -/
theorem Filled.reaches {m m' : Machine} (h : m.Filled) (whole : code.Whole) (records : s.Whole) {n : Nat}
    (reached : Reaches code s m n m') :
    m'.Filled ∨ ∃ j a, j < n ∧ Reaches code s m j a ∧ a.GathersAbsent code := by
  induction reached with
  | refl => exact .inl h
  | @next m m₁ m' n hs _ ih =>
    by_cases gathers : m.GathersAbsent code
    · exact .inr ⟨0, m, Nat.succ_pos n, .refl m, gathers⟩
    · refine (ih (h.step whole records gathers hs)).imp_right ?_
      rintro ⟨j, a, few, reached, gathers⟩
      exact ⟨j + 1, a, Nat.succ_lt_succ few, .next hs reached, gathers⟩

end Machine

end Covenant
