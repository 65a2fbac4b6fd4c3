import Covenant.Proofs.Code.Lines
import Covenant.Proofs.Machine.Effect
import Covenant.Proofs.Machine.Steps
import Covenant.Proofs.Run.Inputs
/-!
Two runs whose receivers differ in fields that are not read.

* `Machine.Blind`: a computation that neither reads nor sets the receiver, as all instructions are but
  those that load and store a field (`blind_execute`);
* `Fields.Agree`: members that are the same under some names, and data of values of their types elsewhere;
* `Machine.Agree.step`: a step from two states that differ at most in such receivers comes to the same,
  if the field that it loads is one of those names, and what it stores is the same after it;
* `Machine.Agree.runFrom`: so do two runs, however long.
-/

namespace Covenant

namespace Machine

/-! ## Computations without the receiver -/

/-- A computation that neither reads nor sets the receiver. -/
def Blind {α : Type} (x : Execution α) : Prop :=
  ∀ m r, x.run { m with receiver := r } = ((x.run m).1, { (x.run m).2 with receiver := r })

namespace Blind

variable {α β : Type}

/-- The receiver is the same afterwards. -/
theorem receiver {x : Execution α} (hx : Blind x) (m : Machine) : (x.run m).2.receiver = m.receiver :=
  congrArg (fun r => r.2.receiver) (hx m m.receiver)

theorem pure (a : α) : Blind (Pure.pure a) := fun _ _ => rfl

theorem throw (f : Failure) : Blind (MonadExcept.throw f : Execution α) := fun _ _ => rfl

theorem bind {x : Execution α} {g : α → Execution β} (hx : Blind x) (hg : ∀ a, Blind (g a)) :
    Blind (x >>= g) := by
  intro m r
  rw [run_bind, run_bind, hx]
  rcases x.run m with ⟨f | a, m⟩
  · rfl
  · exact hg a m r

theorem pop : Blind pop := by
  rintro ⟨st, l, receiver, p, n, c⟩ r
  cases st <;> rfl

theorem push (d : Datum) : Blind (push d) := fun _ _ => rfl

theorem goto (place : Nat) : Blind (goto place) := fun _ _ => rfl

theorem nextOrigin : Blind nextOrigin := fun _ _ => rfl

theorem require (x : Except Misuse α) : Blind (require x) := by
  cases x <;> exact fun _ _ => rfl

theorem attempt (x : Except Failure α) : Blind (attempt x) := by
  cases x <;> exact fun _ _ => rfl

theorem popStored (place : Place) : Blind (popStored place) := by
  refine .bind .pop fun d => ?_
  cases d <;> first | exact .pure _ | exact .throw _

theorem lookUp (s : Surroundings) (contract : String) (d : Datum) : Blind (lookUp s contract d) := by
  rw [lookUp_eq_attempt]
  exact .attempt _

theorem compared (c : Comparison) (a b : Datum) : Blind (compared c a b) := by
  rw [compared_eq_require]
  exact .require _

/-- A computation that ends with a value on the stack. -/
theorem pushing {x : Execution α} (hx : Blind x) (f : α → Datum) :
    Blind (do Machine.push (f (← x)); return (none : Option Departure)) :=
  .bind hx fun _ => .bind (.push _) fun _ => .pure _

end Blind

/-- Instructions that neither load nor store a field do not depend on the receiver. -/
theorem blind_execute (s : Surroundings) {i : Instruction Nat} (known : i.isKnown = true)
    (load : ∀ name, i ≠ .loadThis name) (store : ∀ name, i ≠ .storeThis name) : Blind (execute s i) := by
  cases i with
  | loadThis name => exact absurd rfl (load name)
  | storeThis name => exact absurd rfl (store name)
  | loose => cases known
  | push kind d => exact .bind (.push d) fun _ => .pure _
  | loadContext name => exact .bind (.push _) fun _ => .pure _
  | loadLocal slot =>
    intro m r
    rw [execute_loadLocal, execute_loadLocal]
    cases slotValue m.locals slot <;> rfl
  | storeLocal slot =>
    rintro ⟨st, l, receiver, p, n, c⟩ r
    cases st with
    | nil => rfl
    | cons a st =>
      dsimp only
      rw [execute_storeLocal, execute_storeLocal]
      split <;> rfl
  | getField name => exact .bind .pop fun d => .pushing (.require _) id
  | setField name => exact .bind (.popStored _) fun v => .bind .pop fun d => .pushing (.require _) id
  | deref contract => exact .bind .pop fun d => .pushing (.lookUp s contract d) id
  | arrayNew count => exact fun _ _ => rfl
  | arrayLength | textLength => exact .bind .pop fun d => .pushing (.require _) _
  | arrayGet => exact .bind .pop fun i => .bind .pop fun d => .pushing (.attempt _) id
  | arraySet =>
    exact .bind (.popStored _) fun v => .bind .pop fun i => .bind .pop fun d => .pushing (.attempt _) id
  | arrayPush => exact .bind (.popStored _) fun v => .bind .pop fun d => .pushing (.require _) id
  | arrayIndexOf => exact .bind .pop fun t => .bind .pop fun d => .pushing (.require _) id
  | arrayIncludes => exact .bind .pop fun t => .bind .pop fun d => .pushing (.require _) _
  | concat =>
    exact .bind .pop fun b => .bind .pop fun a => .bind .nextOrigin fun o => .pushing (.require _) id
  | compare k => exact .bind .pop fun b => .bind .pop fun a => .pushing (.compared k a b) _
  | keyMatch => exact .bind .pop fun b => .bind .pop fun a => .bind (.push _) fun _ => .pure _
  | not | truthy => exact .bind .pop fun d => .bind (.push _) fun _ => .pure _
  | jump target => exact .bind (.goto target) fun _ => .pure _
  | jumpIfFalse target | jumpIfTrue target =>
    rintro ⟨st, l, receiver, p, n, c⟩ r
    cases st with
    | nil => rfl
    | cons a st => simp only [execute_jumpIfFalse, execute_jumpIfTrue]
  | dup => exact .bind .pop fun d => .bind (.push d) fun _ => .bind (.push d) fun _ => .pure _
  | drop => exact .bind .pop fun d => .pure _
  | abort => exact .bind .pop fun d => .throw _
  | abortUnauthorized => exact .throw _
  | leave => exact .pure _
  | leaveValue => exact .bind .pop fun d => .pure _
  | arith op type =>
    cases op with
    | neg => exact .bind .pop fun a => .bind .nextOrigin fun o => .pushing (.attempt _) id
    | _ =>
      exact .bind .pop fun b => .bind .pop fun a => .bind .nextOrigin fun o => .pushing (.attempt _) id

end Machine

/-! ## Fields -/

/-- Members of which some are the same, and each declared one is so or gives a value of its type in both. -/
structure Fields.Agree (types : List (String × Ty)) (P : String → Prop) (fields fields' : Fields) :
    Prop where
  same : ∀ name, P name → fields'.lookup name = fields.lookup name
  given : ∀ f ∈ types, fields'.lookup f.1 = fields.lookup f.1 ∨
    ∃ d d' v v', fields.lookup f.1 = some d ∧ Value.ofDatum f.2 d = .ok v ∧
      fields'.lookup f.1 = some d' ∧ Value.ofDatum f.2 d' = .ok v'

namespace Fields.Agree

variable {types : List (String × Ty)} {P : String → Prop} {fields fields' : Fields}

theorem member (h : Agree types P fields fields') {name : String} (own : P name) :
    (Datum.record fields').member name = (Datum.record fields).member name := by
  rw [Datum.member, Datum.member, h.same name own]

/-- A field that is set to one datum is the same. -/
theorem set (h : Agree types P fields fields') (name : String) (d : Datum) :
    Agree types (fun n => P n ∨ n = name) (setField name d fields) (setField name d fields') where
  same := by
    intro n own
    rw [lookup_setField, lookup_setField]
    split
    next => rfl
    next other => exact h.same n (own.resolve_right other)
  given := by
    intro f hf
    rw [lookup_setField, lookup_setField]
    split
    next => exact .inl rfl
    next => exact h.given f hf

theorem mono {Q : String → Prop} (h : Agree types P fields fields') (less : ∀ name, Q name → P name) :
    Agree types Q fields fields' :=
  ⟨fun name own => h.same name (less name own), h.given⟩

end Fields.Agree

/-! ## Steps -/

/-- Known instructions that load no fields but those of some names. -/
def LinkedCode.Loads (code : LinkedCode) (P : String → Prop) : Prop :=
  ∀ (place : Nat) (i : Instruction Nat), code[place]? = some i → i.isKnown = true ∧
    ∀ name, i = .loadThis name → P name

theorem LinkedCode.Loads.mono {code : LinkedCode} {P Q : String → Prop} (h : code.Loads P)
    (more : ∀ name, P name → Q name) : code.Loads Q :=
  fun place i hi => ⟨(h place i hi).1, fun name load => more name ((h place i hi).2 name load)⟩

namespace Machine

/-- States that differ at most in receivers whose fields agree. -/
def Agree (types : List (String × Ty)) (P : String → Prop) (m m' : Machine) : Prop :=
  ∃ fields fields', m.receiver = .record fields ∧ m' = { m with receiver := .record fields' } ∧
    Fields.Agree types P fields fields'

namespace Agree

variable {types : List (String × Ty)} {P : String → Prop} {m m' : Machine} {code : LinkedCode}
  {s : Surroundings}

theorem steps (h : Agree types P m m') : m'.steps = m.steps := by
  obtain ⟨fields, fields', -, rfl, -⟩ := h
  rfl

theorem member (h : Agree types P m m') {name : String} (own : P name) :
    m'.receiver.member name = m.receiver.member name := by
  obtain ⟨fields, fields', receiver, rfl, agree⟩ := h
  rw [receiver]
  exact agree.member own

theorem mono {Q : String → Prop} (h : Agree types P m m') (less : ∀ name, Q name → P name) :
    Agree types Q m m' := by
  obtain ⟨fields, fields', receiver, same, agree⟩ := h
  exact ⟨fields, fields', receiver, same, agree.mono less⟩

/-- States that agree on further fields one by one agree on all of them. -/
theorem union {Q : String → Prop} (h : Agree types P m m')
    (each : ∀ name, Q name → Agree types (fun n => P n ∨ n = name) m m') :
    Agree types (fun n => P n ∨ Q n) m m' := by
  obtain ⟨fields, fields', receiver, rfl, agree⟩ := h
  refine ⟨fields, fields', receiver, rfl, ⟨fun name own => ?_, agree.given⟩⟩
  rcases own with own | own
  · exact agree.same name own
  · obtain ⟨other, other', same, same', agree⟩ := each name own
    cases receiver.symm.trans same
    cases congrArg Machine.receiver same'
    exact agree.same name (.inr rfl)

/-- A step that does not fail stores a field, and it is the same from then on. -/
theorem step_storeThis (h : Agree types P m m') {name : String}
    (store : code[m.place]? = some (.storeThis name)) : ∃ r y y', step code s m = some (r, y) ∧
      step code s m' = some (r, y') ∧ Agree types P y y' ∧ (∀ d, r ≠ .ok (some d)) ∧
      (r = .ok none → Agree types (fun n => P n ∨ n = name) y y') := by
  obtain ⟨fields, fields', receiver, rfl, agree⟩ := h
  obtain ⟨st, l, _, p, n, c⟩ := m
  obtain rfl : _ = Datum.record fields := receiver
  have step : ∀ receiver, step code s ⟨st, l, receiver, p, n, c⟩ =
      some ((execute s (.storeThis name)).run ⟨st, l, receiver, p + 1, n + 1, c⟩) :=
    fun _ => step_of_instruction store
  dsimp only
  rw [step, step]
  cases st with
  | nil => exact ⟨_, _, _, rfl, rfl, ⟨fields, fields', rfl, rfl, agree⟩, nofun, nofun⟩
  | cons d st =>
    rw [execute_storeThis, execute_storeThis]
    by_cases absent : d = .null
    · subst absent
      exact ⟨_, _, _, rfl, rfl, ⟨fields, fields', rfl, rfl, agree⟩, nofun, nofun⟩
    · have stored : ∀ m x, storing (.field name) d m x = x := by
        intro m x
        cases d <;> first | exact absurd rfl absent | rfl
      rw [stored, stored]
      have set : Agree types (fun n => P n ∨ n = name)
          ⟨st, l, .record (setField name d fields), p + 1, n + 1, c⟩
          ⟨st, l, .record (setField name d fields'), p + 1, n + 1, c⟩ :=
        ⟨_, _, rfl, rfl, agree.set name d⟩
      exact ⟨_, _, _, rfl, rfl, set.mono fun _ => .inl, nofun, fun _ => set⟩

/-- Steps from states that agree come to the same, and to states that agree. -/
theorem step (h : Agree types P m m') (loads : code.Loads P)
    {r : Except Failure (Option Departure)} {y : Machine} (hs : step code s m = some (r, y)) :
    ∃ y', Machine.step code s m' = some (r, y') ∧ Agree types P y y' := by
  obtain ⟨i, hi, made⟩ := instruction_of_step hs
  obtain ⟨known, own⟩ := loads _ _ hi
  by_cases store : ∃ name, i = .storeThis name
  · obtain ⟨name, rfl⟩ := store
    obtain ⟨r', z, z', hz, hz', agree, -⟩ := h.step_storeThis (s := s) hi
    cases hs.symm.trans hz
    exact ⟨z', hz', agree⟩
  obtain ⟨fields, fields', receiver, rfl, agree⟩ := h
  obtain ⟨st, l, _, p, n, c⟩ := m
  obtain rfl : _ = Datum.record fields := receiver
  have step : Machine.step code s ⟨st, l, .record fields', p, n, c⟩ =
      some ((execute s i).run ⟨st, l, .record fields', p + 1, n + 1, c⟩) := step_of_instruction hi
  dsimp only at made ⊢
  rw [step]
  by_cases load : ∃ name, i = .loadThis name
  · obtain ⟨name, rfl⟩ := load
    rw [execute_loadThis] at made ⊢
    dsimp only at made ⊢
    rw [agree.member (own name rfl)]
    generalize Failure.lift ((Datum.record fields).member name) = held at made ⊢
    cases held <;> (cases made; exact ⟨_, rfl, fields, fields', rfl, rfl, agree⟩)
  · have blind : ∀ receiver, (execute s i).run ⟨st, l, receiver, p + 1, n + 1, c⟩ =
        (r, { y with receiver := receiver }) := by
      intro receiver
      have same := blind_execute s known (fun name same => load ⟨name, same⟩)
        (fun name same => store ⟨name, same⟩) ⟨st, l, .record fields, p + 1, n + 1, c⟩ receiver
      rw [made] at same
      exact same
    have receiver : y.receiver = .record fields :=
      congrArg (fun x => x.2.receiver) (made.symm.trans (blind (.record fields)))
    exact ⟨_, congrArg some (blind _), fields, fields', receiver, rfl, agree⟩

/-! ## Runs -/

/-- Runs from states that agree end with the same outcome, in states that agree, and when they leave also
on each field that has been stored. -/
theorem runFrom (h : Agree types P m m') (loads : code.Loads P) (limit : Datum) (budget : Nat) :
    ∃ outcome last last', Machine.runFrom code s limit budget m = ⟨outcome, last⟩ ∧
      Machine.runFrom code s limit budget m' = ⟨outcome, last'⟩ ∧ Agree types P last last' ∧
      ∀ departure, outcome = .ok departure → ∀ n a name, Reaches code s m n a →
        code[a.place]? = some (.storeThis name) → Agree types (fun n => P n ∨ n = name) last last' := by
  induction budget generalizing P m m' with
  | zero =>
    obtain ⟨fields, fields', receiver, rfl, agree⟩ := h
    simp only [Machine.runFrom]
    cases code[m.place]? with
    | none => exact ⟨_, _, _, rfl, rfl, ⟨fields, fields', receiver, rfl, agree⟩, fun _ left => by cases left⟩
    | some i => exact ⟨_, _, _, rfl, rfl, ⟨fields, fields', receiver, rfl, agree⟩, fun _ left => by cases left⟩
  | succ budget ih =>
    cases hi : code[m.place]? with
    | none =>
      obtain ⟨fields, fields', receiver, rfl, agree⟩ := h
      simp only [Machine.runFrom, hi]
      exact ⟨_, _, _, rfl, rfl, ⟨fields, fields', receiver, rfl, agree⟩, fun _ left => by cases left⟩
    | some i =>
      obtain ⟨⟨r, y⟩, hs⟩ : ∃ x, Machine.step code s m = some x := ⟨_, step_of_instruction hi⟩
      obtain ⟨y', hs', agree⟩ := h.step loads hs
      rcases r with f | (_ | d)
      · -- the step fails
        exact ⟨_, _, _, runFrom_fails hs _ _, runFrom_fails hs' _ _, agree, fun _ left => by cases left⟩
      · -- the run goes on
        obtain ⟨outcome, last, last', ended, ended', kept, each⟩ := ih agree loads
        refine ⟨outcome, last, last', runFrom_of_step hs _ _ ▸ ended, runFrom_of_step hs' _ _ ▸ ended',
          kept, fun d left n a name reached store => ?_⟩
        cases reached with
        | refl =>
          obtain ⟨r, z, z', hz, hz', -, -, stored⟩ := h.step_storeThis (s := s) store
          cases hs.symm.trans hz
          cases hs'.symm.trans hz'
          obtain ⟨outcome', end₁, end₂, run₁, run₂, both, -⟩ :=
            ih (stored rfl) (loads.mono fun _ => .inl)
          cases ended.symm.trans run₁
          cases ended'.symm.trans run₂
          exact both
        | next hs'' reached =>
          cases hs.symm.trans hs''
          exact each d left _ a name reached store
      · -- the function leaves
        refine ⟨_, _, _, runFrom_departs hs _ _, runFrom_departs hs' _ _, agree, ?_⟩
        rintro - - n a name reached store
        cases reached with
        | refl =>
          obtain ⟨r, z, z', hz, -, -, stays, -⟩ := h.step_storeThis (s := s) store
          cases hs.symm.trans hz
          exact absurd rfl (stays d)
        | next hs' => cases hs.symm.trans hs'

end Agree

end Machine

end Covenant
