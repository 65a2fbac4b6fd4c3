import Covenant.Proofs.Statement.Targets
/-!
The code of a statement does what the statement does.

* `Mirrors`: a machine is where a memory is, up to marks;
* `Happens`: from a state the run comes to what a statement comes to;
* `Action.Does`: so it does from the first instruction of the code of an action, wherever that stands;
* `Stmt.is_typed`: the action that a statement is compiled to does what the statement does.
-/

namespace Covenant

open Code Machine
open Evaluation (lift Uniform)

/-- A machine has the locals and the receiver of a memory, with their marks renamed. -/
structure Mirrors (around : Surroundings) (f : Nat → Nat) (t : Memory) (m : Machine) : Prop where
  renames : Renames f t.computed
  early : (t.world around).Before t.computed
  world : (t.world around).renamed f = ⟨around, m.locals, m.receiver⟩
  computed : m.computed = f t.computed

namespace Mirrors

variable {around : Surroundings} {f g : Nat → Nat} {t : Memory} {m m' : Machine} {c : Nat}

theorem surroundings (h : Mirrors around f t m) : around.renamed f = around :=
  congrArg World.around h.world

theorem locals (h : Mirrors around f t m) : t.locals.map (Datum.renamed f) = m.locals :=
  congrArg World.locals h.world

theorem receiver (h : Mirrors around f t m) : t.receiver.renamed f = m.receiver :=
  congrArg World.receiver h.world

/-- After an evaluation a machine is where the memory is. -/
theorem goOn (h : Mirrors around f t m) (goes : Continues f t.computed g c) (locals : m'.locals = m.locals)
    (receiver : m'.receiver = m.receiver) (computed : m'.computed = g c) :
    Mirrors around g { t with computed := c } m' where
  renames := goes.renames
  early := h.early.mono goes.le
  world := by
    rw [locals, receiver, ← h.world]
    exact h.early.renamed_congr goes.keeps
  computed := computed

/-- Only the locals, the receiver and the number of operations matter. -/
theorem of_same (h : Mirrors around f t m) (locals : m'.locals = m.locals)
    (receiver : m'.receiver = m.receiver) (computed : m'.computed = m.computed) : Mirrors around f t m' :=
  h.goOn (.refl h.renames) locals receiver (computed.trans h.computed)

end Mirrors

def Machine.Departure.renamed (f : Nat → Nat) : Departure → Departure
  | .plain => .plain
  | .value d => .value (d.renamed f)

/-- From a state a run comes to what a statement comes to. When that goes on, the run is at a place, with a
stack; when it has not ended with its fuel, the run has taken at least as many steps. -/
def Happens (code : LinkedCode) (around : Surroundings) (stack : List Datum) (f : Nat → Nat) (n : Nat)
    (m : Machine) (place fuel : Nat) : Outcome → Prop
  | .next t => ∃ g k m', Continues f n g t.computed ∧ Reaches code around m k m' ∧ m'.stack = stack ∧
      m'.place = place ∧ Mirrors around g t m'
  | .left departure t => ∃ g k m' m'', Continues f n g t.computed ∧ Reaches code around m k m' ∧
      step code around m' = some (.ok (some (departure.renamed g)), m'') ∧ m''.stack = stack ∧
      Mirrors around g t m''
  | .failed failure => ∃ (g : Nat → Nat) (k : Nat) (m' : Machine), g.Injective ∧
      Reaches code around m k m' ∧ Fails code around m' (failure.renamed g)
  | .running => ∃ k m', fuel ≤ k ∧ Reaches code around m k m'

theorem Outcome.andThen_next (o : Outcome) : o.andThen .next = o := by cases o <;> rfl

namespace Happens

variable {code : LinkedCode} {around : Surroundings} {stack : List Datum} {f g : Nat → Nat} {n c : Nat}
  {m m' : Machine} {mid place fuel fuel' : Nat} {o : Outcome} {t : Memory}

/-- What happens after some steps. -/
theorem after {k : Nat} (goes : Continues f n g c) (reached : Reaches code around m k m')
    (few : fuel' ≤ fuel + k) (h : Happens code around stack g c m' place fuel o) :
    Happens code around stack f n m place fuel' o := by
  cases o with
  | next t =>
    obtain ⟨g', k', m'', goes', reached', rest⟩ := h
    exact ⟨g', k + k', m'', goes.trans goes', reached.trans reached', rest⟩
  | left departure t =>
    obtain ⟨g', k', m₁, m₂, goes', reached', rest⟩ := h
    exact ⟨g', k + k', m₁, m₂, goes.trans goes', reached.trans reached', rest⟩
  | failed failure =>
    obtain ⟨g', k', m'', inj, reached', fails⟩ := h
    exact ⟨g', k + k', m'', inj, reached.trans reached', fails⟩
  | running =>
    obtain ⟨k', m'', le, reached'⟩ := h
    exact ⟨k + k', m'', by omega, reached.trans reached'⟩

/-- What happens after an instruction. -/
theorem step {j : Instruction Nat} (renames : Renames f n) (here : code[m.place]? = some j)
    (next : (execute around j).run { m with steps := m.steps + 1, place := m.place + 1 } = (.ok none, m'))
    (few : fuel' ≤ fuel + 1) (h : Happens code around stack f n m' place fuel o) :
    Happens code around stack f n m place fuel' o :=
  .after (.refl renames) (.one ((step_of_instruction here).trans (congrArg some next))) few h

theorem mono (renames : Renames f n) (few : fuel' ≤ fuel)
    (h : Happens code around stack f n m place fuel o) : Happens code around stack f n m place fuel' o :=
  .after (.refl renames) (.refl m) few h

/-- What happens after a jump. -/
theorem jump {target : Nat} (renames : Renames f n) (leap : code[m.place]? = some (.jump target))
    (h : Happens code around stack f n { m with steps := m.steps + 1, place := target } place fuel o) :
    Happens code around stack f n m place fuel o :=
  .step renames leap (execute_jump ..) (Nat.le_succ fuel) h

/-- Nothing more is to be done. -/
theorem done (mirrors : Mirrors around f t m) (count : t.computed = n) (same : m.stack = stack)
    (here : m.place = place) : Happens code around stack f n m place fuel (.next t) :=
  ⟨f, 0, m, count ▸ .refl mirrors.renames, .refl m, same, here, mirrors⟩

theorem fails {j : Instruction Nat} {failure : Failure} (renames : Renames f n)
    (here : code[m.place]? = some j)
    (next : ((execute around j).run { m with steps := m.steps + 1, place := m.place + 1 }).1 =
      .error (failure.renamed f)) : Happens code around stack f n m place fuel (.failed failure) :=
  ⟨f, 0, m, renames.injective, .refl m, _,
    (step_of_instruction here).trans (congrArg some (Prod.ext next rfl))⟩

/-- One statement after another. -/
theorem andThen {next : Memory → Outcome} (first : Happens code around stack f n m mid fuel o)
    (rest : ∀ {t g m'}, Continues f n g t.computed → m'.stack = stack → m'.place = mid →
      Mirrors around g t m' → Happens code around stack g t.computed m' place fuel (next t)) :
    Happens code around stack f n m place fuel (o.andThen next) := by
  cases o with
  | next t =>
    obtain ⟨g, k, m', goes, reached, same, here, mirrors⟩ := first
    exact .after goes reached (Nat.le_add_right _ _) (rest goes same here mirrors)
  | left => exact first
  | failed => exact first
  | running => exact first

/-- What happens after an evaluation, with its value on the stack. -/
theorem evaluate {v : World → Evaluation Datum} {v' : Evaluation Datum} {next : Datum → Memory → Outcome}
    (mirrors : Mirrors around f t m) (delivers : Delivers code around m mid ((· :: m.stack) <$> v'))
    (echoes : Echoes Datum.renamed f t.computed ((v (t.world around)).run t.computed) (v'.run m.computed))
    (rest : ∀ {d g c k}, Continues f t.computed g c → d.Before c →
      let m' : Machine := ⟨d.renamed g :: m.stack, m.locals, m.receiver, mid, m.steps + k, g c⟩
      Mirrors around g { t with computed := c } m' →
      Happens code around stack g c m' place fuel (next d { t with computed := c })) :
    Happens code around stack f t.computed m place fuel (t.evaluate around v next) := by
  unfold Memory.evaluate
  unfold Delivers at delivers
  rw [StateT.run_map] at delivers
  cases run : (v (t.world around)).run t.computed with
  | error failure =>
    rw [run] at echoes
    obtain ⟨g, inj, run'⟩ := echoes
    rw [run'] at delivers
    obtain ⟨k, m', reached, fails⟩ := delivers
    exact ⟨g, k, m', inj, reached, fails⟩
  | ok result =>
    obtain ⟨d, c⟩ := result
    rw [run] at echoes
    obtain ⟨early, g, goes, run'⟩ := echoes
    rw [run'] at delivers
    obtain ⟨k, reached⟩ := delivers
    exact .after goes reached (Nat.le_add_right _ _)
      (rest goes (early_iff.mp early) (mirrors.goOn goes rfl rfl rfl))

end Happens

/-! ## Assignments -/

theorem Memory.assign_eq (t : Memory) (around : Surroundings) (s : Scope) (target : Expr)
    (new : World → Evaluation Datum → Evaluation Datum) : t.assign around s target new =
      t.evaluate around (fun w => Expr.along s w (new w) (w.root (target.root s)) target.route) fun d t =>
        t.store d (target.root s) := by
  unfold assign evaluate
  simp only [Expr.along_eq, StateT.run_bind]
  cases (Expr.located s (t.world around) ((t.world around).root (target.root s)) target.route).run
      t.computed with
  | error failure => rfl
  | ok result =>
    obtain ⟨path, c⟩ := result
    simp only [ok_bind]
    let old := lift (Datum.partAlong ((t.world around).root (target.root s)) path)
    cases (new (t.world around) old).run c with
    | error failure => rfl
    | ok result =>
      obtain ⟨value, c'⟩ := result
      have same : world around { t with computed := c' } = t.world around := rfl
      simp only [ok_bind]
      refine Eq.trans (b := put around { t with computed := c' } (target.root s) path value) rfl ?_
      unfold put
      rw [same]
      cases made : Datum.replaced value ((t.world around).root (target.root s)) path with
      | error failure => rfl
      | ok whole => rfl

theorem Root.computes_read (root : Root) : root.read.Computes fun w => lift (w.root root) := by
  cases root with
  | slot index => exact Term.computes_slot index
  | field name => exact Term.computes_field name

theorem Machine.step_storeLocal {code : LinkedCode} {place : Nat} {index : Nat}
    (here : code[place]? = some (.storeLocal index)) (around : Surroundings) (x : Datum)
    (stack locals : List Datum) (receiver : Datum) (n c : Nat) :
    step code around ⟨x :: stack, locals, receiver, place, n, c⟩ = some
      (if index < locals.length then (.ok none, ⟨stack, locals.set index x, receiver, place + 1, n + 1, c⟩)
      else (.error (.misuse .position), ⟨stack, locals, receiver, place + 1, n + 1, c⟩)) :=
  (step_of_instruction (m := ⟨x :: stack, locals, receiver, place, n, c⟩) here).trans
    (congrArg some (execute_storeLocal ..))

/-- What a step comes to that makes another receiver, if there is one. -/
def Machine.receiving (r : Except Failure Datum) (m : Machine) :
    Except Failure (Option Departure) × Machine :=
  match r with
  | .ok d => (.ok none, { m with receiver := d })
  | .error failure => (.error failure, m)

theorem Machine.step_storeThis {code : LinkedCode} {place : Nat} {name : String}
    (here : code[place]? = some (.storeThis name)) (around : Surroundings) (x : Datum)
    (stack locals : List Datum) (receiver : Datum) (n c : Nat) :
    step code around ⟨x :: stack, locals, receiver, place, n, c⟩ = some
      (receiving (receiver.withField name x) ⟨stack, locals, receiver, place + 1, n + 1, c⟩) := by
  refine (step_of_instruction (m := ⟨x :: stack, locals, receiver, place, n, c⟩) here).trans
    (congrArg some ((execute_storeThis ..).trans ?_))
  cases x <;> cases receiver <;> rfl

/-- The instruction that stores the value on the stack stores it as the memory does. -/
theorem happens_store {l : Linkage} {around : Surroundings} {f : Nat → Nat} {t : Memory} {d : Datum}
    {stack locals : List Datum} {receiver : Datum} {place steps computed fuel : Nat} {root : Root}
    (holds : l.Holds place [root.store]) (own : d.Before t.computed)
    (mirrors : Mirrors around f t ⟨d.renamed f :: stack, locals, receiver, place, steps, computed⟩) :
    Happens l.code around stack f t.computed
      ⟨d.renamed f :: stack, locals, receiver, place, steps, computed⟩ (place + 1) fuel (t.store d root) := by
  obtain rfl : t.locals.map (Datum.renamed f) = locals := mirrors.locals
  obtain rfl : t.receiver.renamed f = receiver := mirrors.receiver
  obtain ⟨renames, ⟨records, locals, receiver⟩, -, count⟩ := id mirrors
  cases root with
  | slot index =>
    obtain ⟨⟨j, hj, here⟩, -⟩ := holds
    obtain ⟨_, -, hj⟩ := bind_eq_ok.mp hj
    cases hj
    have next := step_storeLocal here around (d.renamed f) stack (t.locals.map (Datum.renamed f))
      (t.receiver.renamed f) steps computed
    rw [List.length_map] at next
    by_cases inside : index < t.locals.length
    · rw [if_pos inside] at next
      rw [Memory.store, if_pos inside]
      refine ⟨f, 1, _, .refl renames, .one next, rfl, rfl, renames, ⟨records, ?_, receiver⟩, ?_, count⟩
      · intro x hx
        rcases List.mem_or_eq_of_mem_set hx with old | rfl
        · exact locals x old
        · exact own
      · rw [← List.map_set]
        exact congrArg (World.mk · _ _) mirrors.surroundings
    · rw [if_neg inside] at next
      rw [Memory.store, if_neg inside]
      exact ⟨f, 0, _, renames.injective, .refl _, _, next⟩
  | field name =>
    obtain ⟨⟨j, hj, here⟩, -⟩ := holds
    obtain ⟨_, -, hj⟩ := bind_eq_ok.mp hj
    cases hj
    have next := step_storeThis here around (d.renamed f) stack (t.locals.map (Datum.renamed f))
      (t.receiver.renamed f) steps computed
    rw [Datum.withField_renamed] at next
    cases made : t.receiver.withField name d with
    | error failure =>
      rw [made] at next
      rw [Memory.store, made]
      exact ⟨f, 0, _, renames.injective, .refl _, _, next⟩
    | ok whole =>
      rw [made] at next
      rw [Memory.store, made]
      exact ⟨f, 1, _, .refl renames, .one next, rfl, rfl, renames,
        ⟨records, locals, receiver.withField own made⟩, congrArg (World.mk · _ _) mirrors.surroundings,
        count⟩

/-! ## Actions -/

/-- The code of an action does something to a memory, wherever it stands. -/
def Action.Does (a : Action) (act : Surroundings → Nat → Memory → Outcome) : Prop :=
  ∀ (l : Linkage) (n : Nat) {around : Surroundings} {fuel : Nat} {f : Nat → Nat} {t : Memory} {m : Machine},
    l.Holds m.place (a.code n) → Mirrors around f t m →
    Happens l.code around m.stack f t.computed m (m.place + size (a.code n)) fuel (act around fuel t)

namespace Action.Does

variable {a b : Action} {c value : Term} {v : World → Evaluation Datum}
  {act act' : Surroundings → Nat → Memory → Outcome}

theorem congr (h : a.Does act) (same : ∀ around fuel t, act around fuel t = act' around fuel t) :
    a.Does act' := by
  obtain rfl : act = act' := funext fun around => funext fun fuel => funext (same around fuel)
  exact h

theorem assign {s : Scope} {e : Expr} {target : Expr.Target} (read : Expr.Targets.Read s e target)
    {new : World → Evaluation Datum → Evaluation Datum} (updates : Expr.Updates new)
    (made : ∀ {v}, target.read.Computes v → value.Computes fun w => new w (v w)) :
    (Action.assign target.root target.path value).Does fun around _ t => t.assign around s e new := by
  intro l n around fuel f t m holds mirrors
  rw [code] at holds ⊢
  obtain ⟨along, store⟩ := Linkage.holds_append.mp holds
  have whole : target.root.read.Computes fun w => lift (w.root (e.root s)) := by
    rw [read.root]
    exact Root.computes_read _
  have delivered := delivers_codeAlong read.stands whole (made read.read) l n around m along
  have total : size [target.root.store] = 1 := by cases target.root <;> rfl
  dsimp only
  rw [Memory.assign_eq, size_append, total, ← Nat.add_assoc]
  refine .evaluate mirrors delivered ?_ fun goes own mirrors' => ?_
  · rw [mirrors.computed, ← mirrors.world]
    exact Expr.rebuilt_echoes mirrors.early (fun goes rereads => updates.echoes mirrors.early goes rereads)
      e.route (.refl mirrors.renames) (Expr.rereads_root mirrors.renames mirrors.early _)
  · have first : target.root.store = (e.root s).store := congrArg Root.store read.root
    rw [first] at store
    exact happens_store store own mirrors'

/-- What happens after the code of a term, with its value on the stack. -/
theorem value_then (computes : value.Computes v) (uniform : Uniform fun w _ => v w) {l : Linkage} {n : Nat}
    {around : Surroundings} {f : Nat → Nat} {t : Memory} {m : Machine} {place fuel : Nat}
    {next : Datum → Memory → Outcome} (holds : l.Holds m.place (value.code n))
    (mirrors : Mirrors around f t m)
    (rest : ∀ {d g c k}, Continues f t.computed g c → d.Before c →
      let m' : Machine :=
        ⟨d.renamed g :: m.stack, m.locals, m.receiver, m.place + size (value.code n), m.steps + k, g c⟩
      Mirrors around g { t with computed := c } m' →
      Happens l.code around m.stack g c m' place fuel (next d { t with computed := c })) :
    Happens l.code around m.stack f t.computed m place fuel (t.evaluate around v next) := by
  refine .evaluate mirrors (computes l n m.place holds around m rfl) ?_ rest
  rw [mirrors.computed, ← mirrors.world]
  exact uniform.echoes mirrors.early (a := .null) (fun _ hk => by cases hk) (.refl mirrors.renames)

theorem store {index : Nat} (computes : value.Computes v) (uniform : Uniform fun w _ => v w) :
    (Action.assign (.slot index) [] value).Does
      fun around _ t => t.evaluate around v fun d t => t.store d (.slot index) := by
  intro l n around fuel f t m holds mirrors
  rw [code, Term.codeAlong] at holds ⊢
  obtain ⟨first, last⟩ := Linkage.holds_append.mp holds
  rw [size_append, ← Nat.add_assoc]
  exact value_then computes uniform first mirrors fun _ own mirrors' => happens_store last own mirrors'

theorem evaluate (computes : value.Computes v) (uniform : Uniform fun w _ => v w) :
    (Action.evaluate value).Does fun around _ t => t.evaluate around v fun _ t => .next t := by
  intro l n around fuel f t m holds mirrors
  rw [code] at holds ⊢
  obtain ⟨first, ⟨j, hj, here⟩, -⟩ := Linkage.holds_append.mp holds
  cases hj
  rw [size_append, ← Nat.add_assoc]
  refine value_then computes uniform first mirrors fun _ _ mirrors' => ?_
  refine .step mirrors'.renames here (execute_drop ..) (Nat.le_add_right _ _) (.done ?_ rfl rfl rfl)
  exact mirrors'.of_same rfl rfl rfl

theorem leave : (Action.leave none).Does fun _ _ t => .left .plain t := by
  intro l n around fuel f t m holds mirrors
  obtain ⟨⟨j, hj, here⟩, -⟩ := holds
  cases hj
  exact ⟨f, 0, m, _, .refl mirrors.renames, .refl m,
    Eq.trans (step_of_instruction here) (congrArg some (execute_leave ..)), rfl,
    mirrors.of_same rfl rfl rfl⟩

theorem leaveWith (computes : value.Computes v) (uniform : Uniform fun w _ => v w) :
    (Action.leave (some value)).Does
      fun around _ t => t.evaluate around v fun d t => .left (.value d) t := by
  intro l n around fuel f t m holds mirrors
  rw [code] at holds ⊢
  obtain ⟨first, ⟨j, hj, here⟩, -⟩ := Linkage.holds_append.mp holds
  cases hj
  refine value_then computes uniform first mirrors fun _ _ mirrors' => ?_
  exact ⟨_, 0, _, _, .refl mirrors'.renames, .refl _,
    Eq.trans (step_of_instruction here) (congrArg some (execute_leaveValue ..)), rfl,
    mirrors'.of_same rfl rfl rfl⟩

theorem abort (computes : value.Computes v) (uniform : Uniform fun w _ => v w) :
    (Action.abort value).Does
      fun around _ t => t.evaluate around v fun d _ => .failed (.aborted d.shown) := by
  intro l n around fuel f t m holds mirrors
  rw [code] at holds ⊢
  obtain ⟨first, ⟨j, hj, here⟩, -⟩ := Linkage.holds_append.mp holds
  cases hj
  refine value_then computes uniform first mirrors fun _ _ mirrors' => ?_
  refine .fails mirrors'.renames here ?_
  rw [execute_abort, Datum.shown_renamed]
  rfl

theorem nil : (Action.sequence []).Does fun _ _ t => .next t := by
  exact fun l n around fuel f t m _ mirrors => .done mirrors rfl rfl rfl

theorem cons {actions : List Action} (first : a.Does act) (rest : (Action.sequence actions).Does act') :
    (Action.sequence (a :: actions)).Does fun around fuel t =>
      (act around fuel t).andThen (act' around fuel) := by
  intro l n around fuel f t m holds mirrors
  have parts : (Action.sequence (a :: actions)).code n =
      a.code n ++ (Action.sequence actions).code (n + a.labels) := by
    rw [code, code, codeOfAll]
  rw [parts] at holds ⊢
  obtain ⟨before, after⟩ := Linkage.holds_append.mp holds
  rw [size_append, ← Nat.add_assoc]
  refine (first l n before mirrors).andThen fun _ same here mirrors' => ?_
  rw [← here] at after ⊢
  rw [← same]
  exact rest l _ after mirrors'

/-- A condition is evaluated, and where it is false the run goes on at a label. -/
theorem test_then (computes : c.Computes v) (uniform : Uniform fun w _ => v w) {l : Linkage} {n : Nat}
    {around : Surroundings} {f : Nat → Nat} {t : Memory} {m : Machine} {place fuel target : Nat}
    {name : String} {next : Datum → Memory → Outcome} (holds : l.Holds m.place (c.code n ++ [.op (.jumpIfFalse name)]))
    (known : l.labels.lookup name = some target) (mirrors : Mirrors around f t m)
    (rest : ∀ {d g c' k}, let m' : Machine :=
        ⟨m.stack, m.locals, m.receiver, if d.isTrue then m.place + size (c.code n) + 1 else target, k, g c'⟩
      Mirrors around g { t with computed := c' } m' →
      Happens l.code around m.stack g c' m' place fuel (next d { t with computed := c' })) :
    Happens l.code around m.stack f t.computed m place (fuel + 1) (t.evaluate around v next) := by
  obtain ⟨first, ⟨j, hj, here⟩, -⟩ := Linkage.holds_append.mp holds
  rw [linkInstruction, linkTarget_eq_ok.mpr known] at hj
  cases hj
  refine value_then computes uniform first mirrors fun {d g c' k} _ _ mirrors' => ?_
  refine .step mirrors'.renames here (execute_jumpIfFalse ..) (Nat.le_refl _) ?_
  rw [Datum.isTrue_renamed]
  exact rest (mirrors'.of_same rfl rfl rfl)

theorem ifThen (computes : c.Computes v) (uniform : Uniform fun w _ => v w) (yes : a.Does act) :
    (Action.ifThen c a).Does fun around fuel t => t.evaluate around v fun d t =>
      if d.isTrue then act around fuel t else .next t := by
  intro l n around fuel f t m holds mirrors
  rw [code] at holds ⊢
  obtain ⟨inside, ⟨known, -⟩⟩ := Linkage.holds_append.mp holds
  obtain ⟨first, body⟩ := Linkage.holds_append.mp inside
  simp only [size_append, size_op, size_label, size_nil, Nat.add_zero, Nat.zero_add, ← Nat.add_assoc] at *
  refine .mono mirrors.renames (Nat.le_succ fuel) ?_
  refine test_then computes uniform first known mirrors fun {d g c' k} mirrors' => ?_
  by_cases true : d.isTrue = true
  · simp only [true, if_true] at mirrors' ⊢
    exact yes l _ body mirrors'
  · simp only [true] at mirrors' ⊢
    exact .done mirrors' rfl rfl rfl

theorem ifElse (computes : c.Computes v) (uniform : Uniform fun w _ => v w) (yes : a.Does act)
    (no : b.Does act') : (Action.ifElse c a b).Does fun around fuel t => t.evaluate around v fun d t =>
      if d.isTrue then act around fuel t else act' around fuel t := by
  intro l n around fuel f t m holds mirrors
  rw [code] at holds ⊢
  dsimp only at holds ⊢
  obtain ⟨inside, ⟨last, -⟩⟩ := Linkage.holds_append.mp holds
  obtain ⟨inside, second⟩ := Linkage.holds_append.mp inside
  obtain ⟨inside, ⟨⟨j, hj, leap⟩, known, -⟩⟩ := Linkage.holds_append.mp inside
  obtain ⟨first, body⟩ := Linkage.holds_append.mp inside
  simp only [size_append, size_op, size_label, size_nil, Nat.add_zero, Nat.zero_add, ← Nat.add_assoc] at *
  rw [linkInstruction, linkTarget_eq_ok.mpr last] at hj
  cases hj
  refine .mono mirrors.renames (Nat.le_succ fuel) ?_
  refine test_then computes uniform first known mirrors fun {d g c' k} mirrors' => ?_
  by_cases true : d.isTrue = true
  · simp only [true, if_true] at mirrors' ⊢
    rw [← Outcome.andThen_next (act around fuel _)]
    refine (yes l _ body mirrors').andThen fun {t' g' m'} _ same here mirrors'' => ?_
    -- the other branch is jumped over
    refine .jump mirrors''.renames (here ▸ leap) (.done ?_ rfl same rfl)
    exact mirrors''.of_same rfl rfl rfl
  · simp only [true] at mirrors' ⊢
    exact no l _ second mirrors'

theorem loop (computes : c.Computes v) (uniform : Uniform fun w _ => v w) (body : a.Does act) :
    (Action.loop c a).Does fun around fuel t =>
      Outcome.loop (fun t => t.evaluate around v) (act around fuel) fuel t := by
  intro l n around fuel f t m holds mirrors
  rw [code] at holds ⊢
  obtain ⟨inside, ⟨⟨j, hj, leap⟩, known, -⟩⟩ := Linkage.holds_append.mp holds
  obtain ⟨inside, again⟩ := Linkage.holds_append.mp inside
  obtain ⟨start, first⟩ : l.labels.lookup (labelName n) = some m.place ∧
      l.Holds m.place (c.code (n + 2) ++ [Line.op (.jumpIfFalse (labelName (n + 1)))]) := inside
  simp only [size_append, size_op, size_label, size_nil, Nat.zero_add, ← Nat.add_assoc] at *
  rw [linkInstruction, linkTarget_eq_ok.mpr start] at hj
  cases hj
  -- a round that does not end the loop takes a step at least
  suffices rounds : ∀ r ≤ fuel, ∀ {f t} {m' : Machine}, m'.place = m.place → m'.stack = m.stack →
      Mirrors around f t m' → Happens l.code around m.stack f t.computed m'
        (m.place + size (c.code (n + 2)) + 1 + size (a.code (n + 2 + c.labels)) + 1) r
        (Outcome.loop (fun t => t.evaluate around v) (act around fuel) r t) from
    rounds fuel (Nat.le_refl fuel) rfl rfl mirrors
  intro r
  induction r with
  | zero => exact fun _ f t m' _ _ _ => ⟨0, m', Nat.le_refl 0, .refl m'⟩
  | succ r ih =>
    intro few f t m' here same mirrors
    rw [← here] at first again leap known
    rw [← same, Outcome.loop]
    refine test_then computes uniform first known mirrors fun {d g c' k} mirrors' => ?_
    by_cases true : d.isTrue = true
    · simp only [true, if_true] at mirrors' ⊢
      have round := (body l _ again mirrors').mono mirrors'.renames (Nat.le_of_succ_le few)
      refine round.andThen fun {t' g' m''} _ same' here' mirrors'' => ?_
      refine .jump mirrors''.renames (here' ▸ leap) ?_
      rw [same]
      exact ih (Nat.le_of_succ_le few) here (same'.trans same) (mirrors''.of_same rfl rfl rfl)
    · simp only [true] at mirrors' ⊢
      exact .done mirrors' rfl rfl (by simp [here])

end Action.Does

/-! ## Statements -/

theorem Scope.bind_of_declare {s s' : Scope} {name : String} {type : Ty} {line index : Nat}
    (h : s.declare name type line = .ok (index, s')) : index = s.slots.length ∧ s' = s.bind name type := by
  unfold declare at h
  dsimp only at h
  split at h
  · cases h
  · cases h
    exact ⟨rfl, rfl⟩

theorem Expr.uniform_test (s : Scope) (condition : Expr) : Uniform fun w _ => condition.test s w :=
  fun _ inj w _ => .bind (condition.value_alike inj s w _) fun _ => .pure (truth_renamed ..)

namespace Stmt

/-- An action does what a statement does, and names mean after it what they mean after the statement. -/
structure Is (s : Scope) (stmt : Stmt) (a : Action) (s' : Scope) : Prop where
  after : s' = stmt.after s
  does : a.Does fun around fuel t => stmt.exec around fuel s t

variable {s s' : Scope} {a : Action} {line : Nat} {condition : Expr} {yes no body : Stmt}

theorem is_declare {name : String} {type : Option TypeExpr} {value : Expr}
    (h : typed s (.declare name type value line) = .ok (a, s')) :
    Is s (.declare name type value line) a s' := by
  cases type with
  | some written =>
    obtain ⟨type, hr, h⟩ := bind_eq_ok.mp h
    obtain ⟨t, ht, h⟩ := Typed.value_of_termOf h
    obtain ⟨⟨index, s''⟩, hd, h⟩ := bind_eq_ok.mp h
    obtain ⟨rfl, rfl⟩ := Prod.mk.inj (pure_eq_ok.mp h)
    obtain ⟨rfl, rfl⟩ := Scope.bind_of_declare hd
    have known : declared s (some written) value line = type := by
      rw [declared, hr]
      rfl
    refine ⟨by rw [after, known], ?_⟩
    refine (Action.Does.store (Expr.elaborates_of_typed ht).computes (value.uniform_value s _)).congr ?_
    intro around fuel t
    rw [exec, known]
    rfl
  | none =>
    obtain ⟨t, type, ht, h⟩ := Typed.value_of_term h
    obtain ⟨⟨index, s''⟩, hd, h⟩ := bind_eq_ok.mp h
    obtain ⟨rfl, rfl⟩ := Prod.mk.inj (pure_eq_ok.mp h)
    obtain ⟨rfl, rfl⟩ := Scope.bind_of_declare hd
    have known : declared s none value line = type := by
      rw [declared, (Expr.elaborates_of_typed ht).typeOf_eq]
      rfl
    refine ⟨by rw [after, known], ?_⟩
    refine (Action.Does.store (Expr.elaborates_of_typed ht).computes (value.uniform_value s _)).congr ?_
    intro around fuel t
    rw [exec]
    rfl

theorem is_assign {target value : Expr} {op : AssignOp}
    (h : typed s (.assign target op value line) = .ok (a, s')) :
    Is s (.assign target op value line) a s' := by
  obtain ⟨whole, hw, h⟩ := bind_eq_ok.mp h
  obtain ⟨t, ht, h⟩ := Typed.value_of_termOf h
  obtain ⟨stored, hs, h⟩ := bind_eq_ok.mp h
  obtain ⟨rfl, rfl⟩ := Prod.mk.inj (pure_eq_ok.mp h)
  have read := (Expr.targets_of_targeted hw).isRead
  refine ⟨rfl, (Action.Does.assign read (value.updates_assigned s (some whole.type) op) fun ho =>
    computes_combined hs ho (Expr.elaborates_of_typed ht).computes).congr fun around fuel t => ?_⟩
  rw [exec, read.type]

/-- What a condition is compiled to. -/
theorem computes_test {t c : Term} {type : Ty} (h : condition.typed s (some .boolean) = .ok (.value t type))
    (hc : IsCondition t type c) : c.Computes (condition.test s) := by
  have typed := Expr.elaborates_of_typed h
  refine (hc.computes typed.computes).congr fun w => ?_
  rw [Expr.test, typed.typeOf_eq]

theorem is_ifThen (first : ∀ {s s' a}, typed s yes = .ok (a, s') → Is s yes a s')
    (h : typed s (.ifThen condition yes line) = .ok (a, s')) : Is s (.ifThen condition yes line) a s' := by
  obtain ⟨t, type, c, ht, hc, h⟩ := Typed.value_of_condition h
  obtain ⟨⟨b, s₁⟩, hb, h⟩ := bind_eq_ok.mp h
  obtain ⟨rfl, rfl⟩ := Prod.mk.inj (pure_eq_ok.mp h)
  have branch := first hb
  exact ⟨branch.after, .ifThen (computes_test ht hc) (condition.uniform_test s) branch.does⟩

theorem is_ifElse (first : ∀ {s s' a}, typed s yes = .ok (a, s') → Is s yes a s')
    (second : ∀ {s s' a}, typed s no = .ok (a, s') → Is s no a s')
    (h : typed s (.ifElse condition yes no line) = .ok (a, s')) :
    Is s (.ifElse condition yes no line) a s' := by
  obtain ⟨t, type, c, ht, hc, h⟩ := Typed.value_of_condition h
  obtain ⟨⟨b, s₁⟩, hb, h⟩ := bind_eq_ok.mp h
  obtain ⟨⟨b', s₂⟩, hb', h⟩ := bind_eq_ok.mp h
  obtain ⟨rfl, rfl⟩ := Prod.mk.inj (pure_eq_ok.mp h)
  obtain ⟨rfl, does⟩ := first hb
  obtain ⟨rfl, does'⟩ := second hb'
  exact ⟨rfl, .ifElse (computes_test ht hc) (condition.uniform_test s) does does'⟩

theorem is_loop (first : ∀ {s s' a}, typed s body = .ok (a, s') → Is s body a s')
    (h : typed s (.loop condition body line) = .ok (a, s')) : Is s (.loop condition body line) a s' := by
  obtain ⟨t, type, c, ht, hc, h⟩ := Typed.value_of_condition h
  obtain ⟨⟨b, s₁⟩, hb, h⟩ := bind_eq_ok.mp h
  obtain ⟨rfl, rfl⟩ := Prod.mk.inj (pure_eq_ok.mp h)
  have round := first hb
  exact ⟨round.after, .loop (computes_test ht hc) (condition.uniform_test s) round.does⟩

theorem is_leave {value : Option Expr} (h : typed s (.leave value line) = .ok (a, s')) :
    Is s (.leave value line) a s' := by
  obtain ⟨r, hr, h⟩ := bind_eq_ok.mp h
  obtain ⟨rfl, rfl⟩ := Prod.mk.inj (pure_eq_ok.mp h)
  refine ⟨rfl, ?_⟩
  cases value with
  | none =>
    simp only [returned] at hr
    split at hr
    next =>
      cases hr
      exact .leave
    next => cases hr
  | some e =>
    simp only [returned] at hr
    split at hr
    next => cases hr
    next type result =>
      obtain ⟨t, ht, h⟩ := Typed.value_of_termOf hr
      obtain rfl := pure_eq_ok.mp h
      have computes := (Expr.elaborates_of_typed ht).computes
      rw [← result] at computes
      exact .leaveWith computes (e.uniform_value s s.result)

/-- An expression with a value is no effect. -/
theorem effect?_of_elaborates {expected : Option Ty} {e : Expr} {t : Term} {type : Ty}
    (h : Elaborates s expected e t type) : e.effect? = none := by
  cases h <;> rfl

theorem is_evaluate {value : Expr} (h : typed s (.evaluate value line) = .ok (a, s')) :
    Is s (.evaluate value line) a s' := by
  obtain ⟨r, hr, h⟩ := bind_eq_ok.mp h
  cases r with
  | value t type =>
    obtain ⟨rfl, rfl⟩ := Prod.mk.inj (pure_eq_ok.mp h)
    have typed := Expr.elaborates_of_typed hr
    refine ⟨rfl, (Action.Does.evaluate typed.computes (value.uniform_value s none)).congr
      fun around fuel t => ?_⟩
    rw [exec, effect?_of_elaborates typed]
  | effect action =>
    obtain ⟨rfl, rfl⟩ := Prod.mk.inj (pure_eq_ok.mp h)
    refine ⟨rfl, ?_⟩
    cases Expr.acts_of_typed hr with
    | @push object argument line target item element whole array typed =>
      have read := whole.isRead
      refine (Action.Does.assign read (argument.updates_pushed s (some element)) fun ho =>
        ho.appended typed.computes).congr fun around fuel t => ?_
      rw [exec]
      simp only [Expr.effect?, if_true, read.type, array]
      rfl
    | @error argument line message typed => exact .abort typed.computes (argument.uniform_value s _)

mutual
/-- The action of a statement does what the statement does. -/
theorem is_typed : ∀ (stmt : Stmt) {s s' : Scope} {a : Action}, typed s stmt = .ok (a, s') → Is s stmt a s'
  | .block statements line, s, s', a, h => by
    obtain ⟨⟨actions, s₁⟩, ht, h⟩ := bind_eq_ok.mp h
    obtain ⟨rfl, rfl⟩ := Prod.mk.inj (pure_eq_ok.mp h)
    obtain ⟨rfl, does⟩ := is_typedAll statements ht
    exact ⟨rfl, does⟩
  | .declare _ _ _ _, _, _, _, h => is_declare h
  | .assign _ _ _ _, _, _, _, h => is_assign h
  | .ifThen _ yes _, _, _, _, h => is_ifThen (is_typed yes) h
  | .ifElse _ yes no _, _, _, _, h => is_ifElse (is_typed yes) (is_typed no) h
  | .loop _ body _, _, _, _, h => is_loop (is_typed body) h
  | .leave _ _, _, _, _, h => is_leave h
  | .evaluate _ _, _, _, _, h => is_evaluate h

theorem is_typedAll : ∀ (stmts : List Stmt) {s s' : Scope} {actions : List Action},
    typedAll s stmts = .ok (actions, s') → s' = afterAll s stmts ∧
      (Action.sequence actions).Does fun around fuel t => execAll around fuel s stmts t
  | [], s, s', actions, h => by
    obtain ⟨rfl, rfl⟩ := Prod.mk.inj (pure_eq_ok.mp h)
    exact ⟨rfl, .nil⟩
  | first :: rest, s, s', actions, h => by
    obtain ⟨⟨a, s₁⟩, ha, h⟩ := bind_eq_ok.mp h
    obtain ⟨⟨as, s₂⟩, has, h⟩ := bind_eq_ok.mp h
    obtain ⟨rfl, rfl⟩ := Prod.mk.inj (pure_eq_ok.mp h)
    obtain ⟨rfl, does⟩ := is_typed first ha
    obtain ⟨rfl, does'⟩ := is_typedAll rest has
    exact ⟨rfl, .cons does does'⟩
end

end Stmt

end Covenant
