import Covenant.Machine.Run
import Covenant.Proofs.Datum.Access
/-!
What each instruction does to a state, as one equation for each: the values it takes are the first
ones of the stack, and most instructions put one value in their place or fail.
-/

namespace Covenant

def Surroundings.recordOf (s : Surroundings) (contract : String) : Datum → Except Failure Datum
  | .bytes id =>
    match ((s.records.lookup contract).getD []).lookup id with
    | none | some .null => .error (.unsupplied contract id)
    | some record => .ok record
  | d => .error (.misuse (if d.isAtom then .property else .kind))

def Surroundings.caller (s : Surroundings) : Datum :=
  match s.callerKey with
  | some k => .key k
  | none => .null

def Comparison.holds (c : Comparison) (a b : Datum) : Except Misuse Bool :=
  match c with
  | .equal => .ok (a.eq b)
  | .notEqual => .ok (!a.eq b)
  | .less => a.order .less b
  | .lessEqual => a.order .lessEqual b
  | .greater => a.order .greater b
  | .greaterEqual => a.order .greaterEqual b

namespace Machine

def slotValue (locals : List Datum) (slot : Nat) : Except Failure Datum :=
  match locals[slot]? with
  | some d => .ok d
  | none => .error (.misuse .position)

/-- What a step comes to whose only effect is to put a value on the stack, if there is one. -/
def answer (r : Except Failure Datum) (m : Machine) : Except Failure (Option Departure) × Machine :=
  match r with
  | .ok d => (.ok none, { m with stack := d :: m.stack })
  | .error f => (.error f, m)

@[simp] theorem answer_ok (d : Datum) (m : Machine) :
    answer (.ok d) m = (.ok none, { m with stack := d :: m.stack }) := rfl

@[simp] theorem answer_error (f : Failure) (m : Machine) : answer (.error f) m = (.error f, m) :=
  rfl

/-- What a step comes to that stores the value on top of the stack: an absent key is refused. -/
def storing (place : Place) (value : Datum) (m : Machine)
    (r : Except Failure (Option Departure) × Machine) :
    Except Failure (Option Departure) × Machine :=
  match value with
  | .null => (.error (.absentKey place), m)
  | _ => r

theorem itemCount_of_le {count size : Nat} (h : count ≤ size) : itemCount count size = count := by
  simp [itemCount, h]

/-! ## Computing without a state -/

/-- A computation after another one starts from the state that this has left, unless it has failed. -/
theorem run_bind {α β : Type} (x : Execution α) (g : α → Execution β) (m : Machine) :
    (x >>= g).run m = match x.run m with
      | (.ok a, m) => (g a).run m
      | (.error f, m) => (.error f, m) := by
  change (ExceptT.bindCont g (x.run m).1) (x.run m).2 = _
  rcases x.run m with ⟨f | a, m⟩ <;> rfl

theorem run_require (r : Except Misuse Datum) (m : Machine) :
    (do push (← require r); return none : Execution (Option Departure)).run m =
      answer (Failure.lift r) m := by
  cases r <;> rfl

theorem run_attempt (r : Except Failure Datum) (m : Machine) :
    (do push (← attempt r); return none : Execution (Option Departure)).run m = answer r m := by
  cases r <;> rfl

theorem run_require_map {α : Type} (f : α → Datum) (r : Except Misuse α) (m : Machine) :
    (do push (f (← require r)); return none : Execution (Option Departure)).run m =
      answer (Failure.lift (f <$> r)) m := by
  cases r <;> rfl

theorem lookUp_eq_attempt (s : Surroundings) (contract : String) (d : Datum) :
    lookUp s contract d = attempt (s.recordOf contract d) := by
  cases d with
  | bytes id =>
    simp only [lookUp, Surroundings.recordOf]
    cases ((s.records.lookup contract).getD []).lookup id with
    | none => rfl
    | some record => cases record <;> rfl
  | _ => rfl

theorem compared_eq_require (c : Comparison) (a b : Datum) :
    compared c a b = require (c.holds a b) := by
  cases c <;> rfl

/-! ## The instructions -/

section
variable (s : Surroundings) (st : List Datum) (l : List Datum) (r : Datum) (p n c : Nat)

@[simp] theorem execute_push (kind : PushKind) (d : Datum) (m : Machine) :
    (execute s (.push kind d)).run m = answer (.ok d) m := rfl

@[simp] theorem execute_loadThis (name : String) (m : Machine) :
    (execute s (.loadThis name)).run m = answer (Failure.lift (m.receiver.member name)) m := by
  exact run_require (m.receiver.member name) m

@[simp] theorem execute_storeThis (name : String) (a : Datum) :
    (execute s (.storeThis name)).run ⟨a :: st, l, r, p, n, c⟩ =
      storing (.field name) a ⟨st, l, r, p, n, c⟩
        (match r with
          | .record fields => (.ok none, ⟨st, l, .record (setField name a fields), p, n, c⟩)
          | _ => (.error (.misuse .kind), ⟨st, l, r, p, n, c⟩)) := by
  cases a <;> cases r <;> rfl

@[simp] theorem execute_loadLocal (slot : Nat) (m : Machine) :
    (execute s (.loadLocal slot)).run m = answer (slotValue m.locals slot) m := by
  change ExceptT.run (match m.locals[slot]? with
    | some d => do push d; return none
    | none => throw (.misuse .position) : Execution (Option Departure)) m = _
  unfold slotValue
  cases m.locals[slot]? <;> rfl

@[simp] theorem execute_storeLocal (slot : Nat) (a : Datum) :
    (execute s (.storeLocal slot)).run ⟨a :: st, l, r, p, n, c⟩ =
      if slot < l.length then (.ok none, ⟨st, l.set slot a, r, p, n, c⟩)
      else (.error (.misuse .position), ⟨st, l, r, p, n, c⟩) := by
  change ExceptT.run (if slot < l.length then _ else _ : Execution (Option Departure)) _ = _
  split <;> rfl

@[simp] theorem execute_loadContext (name : String) (m : Machine) :
    (execute s (.loadContext name)).run m = answer (.ok s.caller) m := rfl

@[simp] theorem execute_getField (name : String) (a : Datum) :
    (execute s (.getField name)).run ⟨a :: st, l, r, p, n, c⟩ =
      answer (Failure.lift (a.member name)) ⟨st, l, r, p, n, c⟩ :=
  run_require (a.member name) _

@[simp] theorem execute_setField (name : String) (v a : Datum) :
    (execute s (.setField name)).run ⟨v :: a :: st, l, r, p, n, c⟩ =
      storing (.field name) v ⟨a :: st, l, r, p, n, c⟩
        (answer (Failure.lift (a.withMember name v)) ⟨st, l, r, p, n, c⟩) := by
  cases v <;> first | rfl | exact run_require (a.withMember name _) _

@[simp] theorem execute_deref (contract : String) (a : Datum) :
    (execute s (.deref contract)).run ⟨a :: st, l, r, p, n, c⟩ =
      answer (s.recordOf contract a) ⟨st, l, r, p, n, c⟩ := by
  rw [← run_attempt, ← lookUp_eq_attempt]
  rfl

@[simp] theorem execute_arrayNew (items : List Datum) :
    (execute s (.arrayNew items.length)).run ⟨items.reverse ++ st, l, r, p, n, c⟩ =
      answer (.ok (.list items)) ⟨st, l, r, p, n, c⟩ := by
  change (_, _) = _
  simp [itemCount_of_le]

@[simp] theorem execute_arrayLength (a : Datum) :
    (execute s .arrayLength).run ⟨a :: st, l, r, p, n, c⟩ =
      answer (Failure.lift ((fun k : Nat => Datum.integer k) <$> a.size)) ⟨st, l, r, p, n, c⟩ :=
  run_require_map (fun k : Nat => Datum.integer k) a.size _

@[simp] theorem execute_textLength (a : Datum) :
    (execute s .textLength).run ⟨a :: st, l, r, p, n, c⟩ =
      answer (Failure.lift ((fun k : Nat => Datum.integer k) <$> a.size)) ⟨st, l, r, p, n, c⟩ :=
  run_require_map (fun k : Nat => Datum.integer k) a.size _

@[simp] theorem execute_arrayGet (i a : Datum) :
    (execute s .arrayGet).run ⟨i :: a :: st, l, r, p, n, c⟩ =
      answer (a.element i) ⟨st, l, r, p, n, c⟩ :=
  run_attempt (a.element i) _

@[simp] theorem execute_arraySet (v i a : Datum) :
    (execute s .arraySet).run ⟨v :: i :: a :: st, l, r, p, n, c⟩ =
      storing .element v ⟨i :: a :: st, l, r, p, n, c⟩
        (answer (a.withElement i v) ⟨st, l, r, p, n, c⟩) := by
  cases v <;> first | rfl | exact run_attempt (a.withElement i _) _

@[simp] theorem execute_arrayPush (v a : Datum) :
    (execute s .arrayPush).run ⟨v :: a :: st, l, r, p, n, c⟩ =
      storing .element v ⟨a :: st, l, r, p, n, c⟩
        (answer (Failure.lift (a.appended v)) ⟨st, l, r, p, n, c⟩) := by
  cases v <;> first | rfl | exact run_require (a.appended _) _

@[simp] theorem execute_arrayIndexOf (b a : Datum) :
    (execute s .arrayIndexOf).run ⟨b :: a :: st, l, r, p, n, c⟩ =
      answer (Failure.lift (a.indexOf b)) ⟨st, l, r, p, n, c⟩ :=
  run_require (a.indexOf b) _

@[simp] theorem execute_arrayIncludes (b a : Datum) :
    (execute s .arrayIncludes).run ⟨b :: a :: st, l, r, p, n, c⟩ =
      answer (Failure.lift (Datum.boolean <$> a.includes b)) ⟨st, l, r, p, n, c⟩ :=
  run_require_map Datum.boolean (a.includes b) _

@[simp] theorem execute_concat (b a : Datum) :
    (execute s .concat).run ⟨b :: a :: st, l, r, p, n, c⟩ =
      answer (Failure.lift (a.plus (.computed c) b)) ⟨st, l, r, p, n, c + 1⟩ :=
  run_require (a.plus (.computed c) b) _

@[simp] theorem execute_compare (k : Comparison) (b a : Datum) :
    (execute s (.compare k)).run ⟨b :: a :: st, l, r, p, n, c⟩ =
      answer (Failure.lift (Datum.boolean <$> k.holds a b)) ⟨st, l, r, p, n, c⟩ := by
  rw [← run_require_map, ← compared_eq_require]
  rfl

@[simp] theorem execute_keyMatch (b a : Datum) :
    (execute s .keyMatch).run ⟨b :: a :: st, l, r, p, n, c⟩ =
      answer (.ok (.boolean (keyMatches a b))) ⟨st, l, r, p, n, c⟩ := rfl

@[simp] theorem execute_not (a : Datum) :
    (execute s .not).run ⟨a :: st, l, r, p, n, c⟩ =
      answer (.ok (.boolean (!a.isTrue))) ⟨st, l, r, p, n, c⟩ := rfl

@[simp] theorem execute_truthy (a : Datum) :
    (execute s .truthy).run ⟨a :: st, l, r, p, n, c⟩ =
      answer (.ok (.boolean a.holds)) ⟨st, l, r, p, n, c⟩ := rfl

@[simp] theorem execute_jump (target : Nat) :
    (execute s (.jump target)).run ⟨st, l, r, p, n, c⟩ =
      (.ok none, ⟨st, l, r, target, n, c⟩) := rfl

@[simp] theorem execute_jumpIfFalse (target : Nat) (a : Datum) :
    (execute s (.jumpIfFalse target)).run ⟨a :: st, l, r, p, n, c⟩ =
      (.ok none, ⟨st, l, r, if a.isTrue then p else target, n, c⟩) := by
  change ExceptT.run (do if !a.isTrue then goto target
                         return none : Execution (Option Departure)) _ = _
  cases a.isTrue <;> rfl

@[simp] theorem execute_jumpIfTrue (target : Nat) (a : Datum) :
    (execute s (.jumpIfTrue target)).run ⟨a :: st, l, r, p, n, c⟩ =
      (.ok none, ⟨st, l, r, if a.isTrue then target else p, n, c⟩) := by
  change ExceptT.run (do if a.isTrue then goto target
                         return none : Execution (Option Departure)) _ = _
  cases a.isTrue <;> rfl

@[simp] theorem execute_dup (a : Datum) :
    (execute s .dup).run ⟨a :: st, l, r, p, n, c⟩ = (.ok none, ⟨a :: a :: st, l, r, p, n, c⟩) :=
  rfl

@[simp] theorem execute_drop (a : Datum) :
    (execute s .drop).run ⟨a :: st, l, r, p, n, c⟩ = (.ok none, ⟨st, l, r, p, n, c⟩) := rfl

@[simp] theorem execute_abort (a : Datum) :
    (execute s .abort).run ⟨a :: st, l, r, p, n, c⟩ =
      (.error (.aborted a.shown), ⟨st, l, r, p, n, c⟩) := rfl

@[simp] theorem execute_abortUnauthorized (m : Machine) :
    (execute s .abortUnauthorized).run m = (.error .unauthorized, m) := rfl

@[simp] theorem execute_leave (m : Machine) :
    (execute s .leave).run m = (.ok (some .plain), m) := rfl

@[simp] theorem execute_leaveValue (a : Datum) :
    (execute s .leaveValue).run ⟨a :: st, l, r, p, n, c⟩ =
      (.ok (some (.value a)), ⟨st, l, r, p, n, c⟩) := rfl

@[simp] theorem execute_negate (type : Primitive) (a : Datum) :
    (execute s (.arith .neg type)).run ⟨a :: st, l, r, p, n, c⟩ =
      answer (a.arith (.computed c) .neg type .null) ⟨st, l, r, p, n, c + 1⟩ :=
  run_attempt (a.arith (.computed c) .neg type .null) _

theorem execute_arith {op : Arith} (hop : op ≠ .neg) (type : Primitive) (b a : Datum) :
    (execute s (.arith op type)).run ⟨b :: a :: st, l, r, p, n, c⟩ =
      answer (a.arith (.computed c) op type b) ⟨st, l, r, p, n, c + 1⟩ := by
  cases op <;> first | exact absurd rfl hop | exact run_attempt (a.arith (.computed c) _ type b) _

end

end Machine

end Covenant
