import Covenant.Proofs.Code.Lines
import Covenant.Proofs.Datum.Remarking
import Covenant.Proofs.Machine.Effect
import Covenant.Proofs.Machine.Steps
/-!
Two runs whose data differ in the marks of results that are no numbers.

* `Machine.Remarks`: a computation that comes to the same but for marks, as all instructions do whose
  operands have no marks of their own (`remarks_execute`);
* `Machine.runFrom_remarked`: so do runs, however long, if the records that they look up are the same but
  for marks.
-/

namespace Covenant

def Machine.remarked (f : Origin → Origin) (m : Machine) : Machine :=
  { m with
    stack := m.stack.map (Datum.remarked f)
    locals := m.locals.map (Datum.remarked f)
    receiver := m.receiver.remarked f }

def Machine.Departure.remarked (f : Origin → Origin) : Departure → Departure
  | .plain => .plain
  | .value d => .value (d.remarked f)

def Machine.Ended.remarked (f : Origin → Origin) (e : Ended) : Ended where
  outcome := match e.outcome with
    | .ok departure => .ok (departure.remarked f)
    | .error failure => .error (failure.remarked f)
  machine := e.machine.remarked f

structure Surroundings.Remarked (f : Origin → Origin) (s s' : Surroundings) : Prop where
  callerKey : s'.callerKey = s.callerKey
  records : ∀ contract id, ((s'.records.lookup contract).getD []).lookup id =
    (((s.records.lookup contract).getD []).lookup id).map (Datum.remarked f)

/-- Known instructions whose operands have no marks that are replaced. -/
def LinkedCode.Unmarked (f : Origin → Origin) (code : LinkedCode) : Prop :=
  ∀ (place : Nat) (i : Instruction Nat), code[place]? = some i → i.isKnown = true ∧
    ∀ kind d, i = .push kind d → d.remarked f = d

/-- Marks of operations stay as they are, and different marks stay apart. -/
structure Origin.Recasts (f : Origin → Origin) : Prop where
  injective : f.Injective
  computed : ∀ n, f (.computed n) = .computed n

variable {f : Origin → Origin} {s s' : Surroundings}

theorem Surroundings.Remarked.recordOf (h : s.Remarked f s') (contract : String) (d : Datum) :
    s'.recordOf contract (d.remarked f) = Datum.remarkedAnswer f (s.recordOf contract d) := by
  cases d with
  | bytes id =>
    rw [Datum.remarked, Surroundings.recordOf, Surroundings.recordOf, h.records]
    cases ((s.records.lookup contract).getD []).lookup id with
    | none => rfl
    | some record =>
      cases record with
      | list items =>
        rw [Option.map_some, Datum.remarked_list]
        exact congrArg Except.ok (Datum.remarked_list items).symm
      | record fields =>
        rw [Option.map_some, Datum.remarked_record]
        exact congrArg Except.ok (Datum.remarked_record fields).symm
      | _ => rfl
  | list items =>
    rw [Datum.remarked_list]
    rfl
  | record fields =>
    rw [Datum.remarked_record]
    rfl
  | _ => rfl

theorem Surroundings.Remarked.caller (h : s.Remarked f s') : s'.caller = s.caller.remarked f := by
  rw [Surroundings.caller, Surroundings.caller, h.callerKey]
  cases s.callerKey <;> rfl

theorem Comparison.holds_remarked (inj : f.Injective) (c : Comparison) (a b : Datum) :
    c.holds (a.remarked f) (b.remarked f) = c.holds a b := by
  cases c with
  | equal => exact congrArg Except.ok (Datum.eq_remarked inj a b)
  | notEqual => exact congrArg (fun same => Except.ok !same) (Datum.eq_remarked inj a b)
  | _ => exact Datum.order_remarked inj _ a b

namespace Machine

theorem keyMatches_remarked (inj : f.Injective) (a b : Datum) :
    keyMatches (a.remarked f) (b.remarked f) = keyMatches a b := by
  cases a with
  | key k => exact congrArg (!k.isNull && ·) (Datum.eq_remarked inj (.key k) b)
  | list | record => simp [keyMatches]
  | _ => rfl

/-! ## Computations -/

def remarkedResult {α β : Type} (f : Origin → Origin) (h : α → β) :
    Except Failure α × Machine → Except Failure β × Machine
  | (.ok a, m) => (.ok (h a), m.remarked f)
  | (.error failure, m) => (.error (failure.remarked f), m.remarked f)

/-- On states that are the same but for marks, one computation comes to what the other does, but for
marks. -/
def Remarks {α β : Type} (f : Origin → Origin) (h : α → β) (x : Execution α) (x' : Execution β) : Prop :=
  ∀ m, x'.run (m.remarked f) = remarkedResult f h (x.run m)

namespace Remarks

variable {α β γ δ : Type} {h : α → β} {k : γ → δ}

theorem pure (a : α) : Remarks f h (Pure.pure a) (Pure.pure (h a)) := fun _ => rfl

theorem throw (failure : Failure) :
    Remarks f h (MonadExcept.throw failure) (MonadExcept.throw (failure.remarked f)) := fun _ => rfl

theorem bind {x : Execution α} {x' : Execution β} {g : α → Execution γ} {g' : β → Execution δ}
    (hx : Remarks f h x x') (hg : ∀ a, Remarks f k (g a) (g' (h a))) :
    Remarks f k (x >>= g) (x' >>= g') := by
  intro m
  rw [run_bind, run_bind, hx]
  rcases x.run m with ⟨failure | a, m⟩
  · rfl
  · exact hg a m

theorem pop : Remarks f (Datum.remarked f) pop pop := by
  rintro ⟨st, l, r, p, n, c⟩
  cases st <;> rfl

theorem push (d : Datum) : Remarks f id (push d) (push (d.remarked f)) := fun _ => rfl

theorem goto (place : Nat) : Remarks f id (goto place) (goto place) := fun _ => rfl

theorem nextOrigin (recasts : Origin.Recasts f) : Remarks f f nextOrigin nextOrigin := by
  intro m
  change (Except.ok (Origin.computed m.computed), _) = (Except.ok (f (.computed m.computed)), _)
  rw [recasts.computed]
  rfl

theorem require (x : Except Misuse α) : Remarks f h (require x) (require (h <$> x)) := by
  cases x <;> exact fun _ => rfl

/-- A question whose answer has no marks. -/
theorem same (x : Except Misuse α) : Remarks f id (Machine.require x) (Machine.require x) := by
  cases x <;> exact fun _ => rfl

theorem attempt (x : Except Failure Datum) :
    Remarks f (Datum.remarked f) (attempt x) (attempt (Datum.remarkedAnswer f x)) := by
  cases x <;> exact fun _ => rfl

theorem popStored (place : Place) : Remarks f (Datum.remarked f) (popStored place) (popStored place) := by
  refine .bind .pop fun d => ?_
  cases d with
  | null => exact .throw _
  | list items =>
    rw [Datum.remarked_list]
    exact Datum.remarked_list (f := f) items ▸ .pure _
  | record fields =>
    rw [Datum.remarked_record]
    exact Datum.remarked_record (f := f) fields ▸ .pure _
  | _ => exact .pure _

theorem lookUp (same : s.Remarked f s') (contract : String) (d : Datum) :
    Remarks f (Datum.remarked f) (lookUp s contract d) (lookUp s' contract (d.remarked f)) := by
  rw [lookUp_eq_attempt, lookUp_eq_attempt, same.recordOf]
  exact .attempt _

theorem compared (inj : f.Injective) (c : Comparison) (a b : Datum) :
    Remarks f id (compared c a b) (compared c (a.remarked f) (b.remarked f)) := by
  rw [compared_eq_require, compared_eq_require, Comparison.holds_remarked inj]
  exact .same _

/-- Going on without a value. -/
theorem next : Remarks f (Option.map (Departure.remarked f)) (Pure.pure none) (Pure.pure none) :=
  .pure none

/-- A value goes on the stack. -/
theorem placing {d d' : Datum} (same : d' = d.remarked f) :
    Remarks f (Option.map (Departure.remarked f)) (do Machine.push d; return none)
      (do Machine.push d'; return none) := by
  subst same
  exact .bind (.push d) fun _ => .next

/-- A computation that ends with a value on the stack. -/
theorem pushing {x : Execution α} {x' : Execution β} (hx : Remarks f h x x') {g : α → Datum}
    {g' : β → Datum} (same : ∀ a, g' (h a) = (g a).remarked f) :
    Remarks f (Option.map (Departure.remarked f))
      (do Machine.push (g (← x)); return none) (do Machine.push (g' (← x')); return none) :=
  .bind hx fun a => .placing (same a)

/-- A value that is made of others goes on the stack. -/
theorem requiring {r r' : Except Misuse Datum} (same : r' = Datum.remarked f <$> r) :
    Remarks f (Option.map (Departure.remarked f))
      (do Machine.push (← Machine.require r); return none)
      (do Machine.push (← Machine.require r'); return none) := by
  subst same
  exact .pushing (.require r) fun _ => rfl

theorem attempting {r r' : Except Failure Datum} (same : r' = Datum.remarkedAnswer f r) :
    Remarks f (Option.map (Departure.remarked f))
      (do Machine.push (← Machine.attempt r); return none)
      (do Machine.push (← Machine.attempt r'); return none) := by
  subst same
  exact .pushing (.attempt r) fun _ => rfl

/-- What is asked of data, and has no marks, goes on the stack. -/
theorem asking {r r' : Except Misuse α} (same : r' = r) {g : α → Datum}
    (plain : ∀ a, (g a).remarked f = g a) :
    Remarks f (Option.map (Departure.remarked f))
      (do Machine.push (g (← Machine.require r)); return none)
      (do Machine.push (g (← Machine.require r')); return none) := by
  subst same
  exact .pushing (.same r') fun a => (plain a).symm

/-! ### Fields, locals and lists -/

theorem loadThis (name : String) : Remarks f (Option.map (Departure.remarked f))
    (execute s (.loadThis name)) (execute s' (.loadThis name)) := by
  intro m
  rw [execute_loadThis, execute_loadThis]
  change answer (Failure.lift ((m.receiver.remarked f).member name)) _ = _
  rw [Datum.member_remarked]
  cases m.receiver.member name <;> rfl

theorem storeThis (name : String) : Remarks f (Option.map (Departure.remarked f))
    (execute s (.storeThis name)) (execute s' (.storeThis name)) := by
  refine .bind (.popStored _) fun d => ?_
  rintro ⟨st, l, r, p, n, c⟩
  cases r with
  | record fields =>
    rw [remarked, Datum.remarked_record]
    refine congrArg (fun r => (Except.ok none, (⟨_, _, r, p, n, c⟩ : Machine))) ?_
    rw [Datum.remarked_record, Datum.setField_remarked]
  | list items =>
    rw [remarked, Datum.remarked_list]
    exact congrArg (fun r => (Except.error _, (⟨_, _, r, p, n, c⟩ : Machine)))
      (Datum.remarked_list items).symm
  | _ => rfl

theorem loadLocal (slot : Nat) : Remarks f (Option.map (Departure.remarked f))
    (execute s (.loadLocal slot)) (execute s' (.loadLocal slot)) := by
  intro m
  rw [execute_loadLocal, execute_loadLocal]
  change answer (slotValue (m.locals.map (Datum.remarked f)) slot) _ = _
  rw [slotValue, slotValue, List.getElem?_map]
  cases m.locals[slot]? <;> rfl

theorem storeLocal (slot : Nat) : Remarks f (Option.map (Departure.remarked f))
    (execute s (.storeLocal slot)) (execute s' (.storeLocal slot)) := by
  rintro ⟨st, l, receiver, p, n, c⟩
  cases st with
  | nil => rfl
  | cons a st =>
    change (execute s' (.storeLocal slot)).run
      ⟨a.remarked f :: st.map _, l.map (Datum.remarked f), receiver.remarked f, p, n, c⟩ = _
    rw [execute_storeLocal, execute_storeLocal, List.length_map, ← List.map_set]
    split <;> rfl

theorem arrayNew (count : Nat) : Remarks f (Option.map (Departure.remarked f))
    (execute s (.arrayNew count)) (execute s' (.arrayNew count)) := by
  intro m
  have made : ∀ (s : Surroundings) (m : Machine), (execute s (.arrayNew count)).run m =
      answer (.ok (.list (m.stack.take (itemCount count m.stack.length)).reverse))
        { m with stack := m.stack.drop (itemCount count m.stack.length) } := fun _ _ => rfl
  rw [made, made, remarked, List.length_map, ← List.map_take, ← List.map_drop, ← List.map_reverse,
    ← Datum.remarked_list]
  rfl

theorem arith (recasts : Origin.Recasts f) (op : Arith) (type : Primitive) :
    Remarks f (Option.map (Departure.remarked f)) (execute s (.arith op type))
      (execute s' (.arith op type)) := by
  cases op with
  | neg =>
    refine .bind .pop fun a => .bind (.nextOrigin recasts) fun o => .attempting ?_
    rw [Datum.remarkedAnswer_arith]
    exact Datum.arith_remarked recasts.injective .neg type a .null
  | _ =>
    refine .bind .pop fun b => .bind .pop fun a => .bind (.nextOrigin recasts) fun o => .attempting ?_
    rw [Datum.remarkedAnswer_arith]
    exact Datum.arith_remarked recasts.injective _ _ _ _

end Remarks

/-! ## The instructions -/

/-- An instruction comes to the same but for marks, if its operand has none that are replaced. -/
theorem remarks_execute (recasts : Origin.Recasts f) (same : s.Remarked f s') {i : Instruction Nat}
    (known : i.isKnown = true) (operand : ∀ kind d, i = .push kind d → d.remarked f = d) :
    Remarks f (Option.map (Departure.remarked f)) (execute s i) (execute s' i) := by
  have inj := recasts.injective
  cases i with
  | loose => cases known
  | push kind d => exact .placing (operand kind d rfl).symm
  | loadThis name => exact .loadThis name
  | storeThis name => exact .storeThis name
  | loadContext name => exact .placing same.caller
  | loadLocal slot => exact .loadLocal slot
  | storeLocal slot => exact .storeLocal slot
  | getField name => exact .bind .pop fun d => .requiring (Datum.member_remarked name d)
  | setField name =>
    exact .bind (.popStored _) fun v => .bind .pop fun d => .requiring (Datum.withMember_remarked d name v)
  | deref contract => exact .bind .pop fun d => .pushing (.lookUp same contract d) fun _ => rfl
  | arrayNew count => exact .arrayNew count
  | arrayLength | textLength =>
    exact .bind .pop fun d => .asking (Datum.size_remarked d) fun _ => rfl
  | arrayGet => exact .bind .pop fun i => .bind .pop fun d => .attempting (Datum.element_remarked d i)
  | arraySet =>
    exact .bind (.popStored _) fun v => .bind .pop fun i => .bind .pop fun d =>
      .attempting (Datum.withElement_remarked d i v)
  | arrayPush =>
    exact .bind (.popStored _) fun v => .bind .pop fun d => .requiring (Datum.appended_remarked d v)
  | arrayIndexOf =>
    exact .bind .pop fun t => .bind .pop fun d => .requiring (Datum.indexOf_remarked inj d t)
  | arrayIncludes =>
    exact .bind .pop fun t => .bind .pop fun d => .asking (Datum.includes_remarked inj d t) fun _ => rfl
  | concat =>
    exact .bind .pop fun b => .bind .pop fun a => .bind (.nextOrigin recasts) fun o =>
      .requiring (Datum.plus_remarked a b)
  | compare k =>
    exact .bind .pop fun b => .bind .pop fun a => .pushing (.compared inj k a b) fun _ => rfl
  | keyMatch =>
    exact .bind .pop fun b => .bind .pop fun a =>
      .placing (congrArg Datum.boolean (keyMatches_remarked inj a b))
  | not => exact .bind .pop fun d => .placing (congrArg (Datum.boolean !·) (Datum.isTrue_remarked d))
  | truthy => exact .bind .pop fun d => .placing (congrArg Datum.boolean (Datum.holds_remarked d))
  | jump target => exact .bind (.goto target) fun _ => .next
  | jumpIfFalse target | jumpIfTrue target =>
    refine .bind .pop fun d => ?_
    rw [Datum.isTrue_remarked]
    cases d.isTrue <;> first | exact .bind (.goto target) fun _ => .next | exact .next
  | dup => exact .bind .pop fun d => .bind (.push d) fun _ => .bind (.push d) fun _ => .next
  | drop => exact .bind .pop fun d => .next
  | abort =>
    refine .bind .pop fun d => ?_
    rw [Datum.shown_remarked]
    exact .throw _
  | abortUnauthorized => exact .throw _
  | leave => exact .pure _
  | leaveValue => exact .bind .pop fun d => .pure _
  | arith op type => exact .arith recasts op type

/-! ## Runs -/

theorem step_remarked (recasts : Origin.Recasts f) (same : s.Remarked f s') {code : LinkedCode}
    (unmarked : code.Unmarked f) (m : Machine) : step code s' (m.remarked f) =
      (step code s m).map (remarkedResult f (Option.map (Departure.remarked f))) := by
  rw [step, step, Option.map_map]
  change code[m.place]?.map _ = _
  cases hi : code[m.place]? with
  | none => rfl
  | some i =>
    obtain ⟨known, operand⟩ := unmarked m.place i hi
    exact congrArg some (remarks_execute recasts same known operand
      { m with steps := m.steps + 1, place := m.place + 1 })

/-- Runs on states and records that are the same but for marks end the same but for marks. -/
theorem runFrom_remarked (recasts : Origin.Recasts f) (same : s.Remarked f s') {code : LinkedCode}
    (unmarked : code.Unmarked f) (limit : Datum) (budget : Nat) (m : Machine) :
    runFrom code s' limit budget (m.remarked f) = (runFrom code s limit budget m).remarked f := by
  have pastEnd : ∀ {m : Machine} {s budget}, code[m.place]? = none →
      runFrom code s limit budget m = ⟨.error .pastEnd, m⟩ := by
    intro m s budget none
    cases budget <;> rw [runFrom, none]
  induction budget generalizing m with
  | zero =>
    cases hi : code[m.place]? with
    | none =>
      rw [pastEnd hi, pastEnd (m := m.remarked f) hi]
      rfl
    | some i =>
      have here : code[(m.remarked f).place]? = some i := hi
      rw [runFrom, runFrom, hi, here]
      rfl
  | succ budget ih =>
    have stepped := step_remarked recasts same unmarked m
    cases hs : step code s m with
    | none =>
      have none : code[m.place]? = none := by simpa [step] using hs
      rw [pastEnd none, pastEnd (m := m.remarked f) none]
      rfl
    | some r =>
      rw [hs] at stepped
      obtain ⟨failure | (_ | departure), last⟩ := r
      · rw [runFrom_fails hs, runFrom_fails stepped]
        rfl
      · rw [runFrom_of_step hs, runFrom_of_step stepped, ih]
      · rw [runFrom_departs hs, runFrom_departs stepped]
        rfl

end Machine

end Covenant
