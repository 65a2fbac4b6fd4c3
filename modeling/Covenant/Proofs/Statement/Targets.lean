import Covenant.Proofs.Compile.Evaluation
import Covenant.Proofs.Statement.Paths
import Covenant.Proofs.Term.Renaming
/-!
Targets of assignments. The code of an assignment reads each container on the path anew, and the places
in it too.

* `Expr.along`: an assignment in one recursion over the path, each container read once;
* `Expr.rebuilt`, `computes_codeAlong`: what the code computes, with each container read anew;
* `Expr.rebuilt_echoes`: the two make the same of the whole, up to marks.
-/

namespace Covenant

open Code Machine
open Evaluation (lift Alike Uniform)

/-! ## Steps with other marks -/

namespace Step

def renamed (f : Nat → Nat) : Step Datum → Step Datum
  | .member name => .member name
  | .element index => .element (index.renamed f)

variable {f : Nat → Nat}

theorem place_renamed (step : Step Datum) : (step.renamed f).place = step.place := by cases step <;> rfl

/-- A place that leads to a part has no marks. -/
theorem renamed_of_part {d x : Datum} {step : Step Datum} (h : d.part step = .ok x) :
    step.renamed f = step := by
  cases step with
  | member name => rfl
  | element index =>
    exact congrArg element (Datum.renamed_of_checkPlace (Datum.checkPlace_of_element h))

/-- The place in a step is evaluated alike wherever the operations before it are renamed to. -/
theorem value_echoes {s : Scope} {w : World} (step : Step Expr) {g : Nat → Nat} {n c : Nat}
    (early : w.Before n) (h : Continues f n g c) :
    Echoes renamed g c ((step.value s w).run c) ((step.value s (w.renamed f)).run (g c)) := by
  cases step with
  | member name => exact ⟨fun _ _ _ => rfl, g, .refl h.renames, rfl⟩
  | element place =>
    have plain : Datum.null.Before n := fun _ hk => by cases hk
    refine ((place.uniform_value s (some .u32)).echoes early plain h).bind
      fun index c' g' _ own goes => ?_
    exact ⟨fun _ _ same => congrArg element (own _ _ same), g', .refl goes.renames, rfl⟩

end Step

namespace Datum

variable {f : Nat → Nat}

theorem part_renamed (d : Datum) (step : Step Datum) :
    (d.renamed f).part (step.renamed f) = renamedAnswer f (d.part step) := by
  cases step with
  | member name =>
    rw [Step.renamed, part, part, member_renamed, renamedAnswer_lift]
  | element index => exact element_renamed d index

theorem kept_renamed (place : Place) (value : Datum) (r : Except Failure Datum) :
    kept place (value.renamed f) (renamedAnswer f r) = renamedAnswer f (kept place value r) := by
  cases value with
  | list | record => simp [kept]
  | _ => rfl

theorem withPart_renamed (d : Datum) (step : Step Datum) (value : Datum) :
    (d.renamed f).withPart (step.renamed f) (value.renamed f) =
      renamedAnswer f (d.withPart step value) := by
  unfold withPart
  rw [← kept_renamed, Step.place_renamed]
  refine congrArg (kept _ _) ?_
  cases step with
  | member name =>
    dsimp only [Step.renamed]
    rw [withMember_renamed, renamedAnswer_lift]
  | element index => exact withElement_renamed d index value

theorem withField_renamed (d : Datum) (name : String) (value : Datum) :
    (d.renamed f).withField name (value.renamed f) = renamedAnswer f (d.withField name value) := by
  unfold withField
  rw [← kept_renamed]
  refine congrArg (kept _ _) ?_
  cases d with
  | record fields =>
    simp only [renamed_record, setField_renamed]
    exact congrArg Except.ok (renamed_record _).symm
  | list items =>
    rw [renamed_list]
    rfl
  | _ => rfl

theorem extended_renamed (d value : Datum) :
    (d.renamed f).extended (value.renamed f) = renamedAnswer f (d.extended value) := by
  unfold extended
  rw [appended_renamed, ← renamedAnswer_lift, kept_renamed]

theorem Before.part {n : Nat} {d x : Datum} {step : Step Datum} (early : d.Before n)
    (h : d.part step = .ok x) : x.Before n := by
  refine before_of_renamed fun f _ keeps => ?_
  have same := part_renamed (f := f) d step
  rw [early.renamed keeps, Step.renamed_of_part h, h] at same
  exact (Except.ok.inj same).symm

/-- A place that is replaced has no marks. -/
theorem renamed_of_withPart {d d' value : Datum} {step : Step Datum} (h : d.withPart step value = .ok d') :
    step.renamed f = step := by
  cases step with
  | member name => rfl
  | element index =>
    obtain ⟨_, _, _, _, checked, _⟩ := exists_withElement (of_kept h)
    exact congrArg Step.element (renamed_of_checkPlace checked)

theorem Before.withPart {n : Nat} {d d' value : Datum} {step : Step Datum} (early : d.Before n)
    (hv : value.Before n) (h : d.withPart step value = .ok d') : d'.Before n := by
  refine before_of_renamed fun f _ keeps => ?_
  have same := withPart_renamed (f := f) d step value
  rw [early.renamed keeps, hv.renamed keeps, renamed_of_withPart h, h] at same
  exact (Except.ok.inj same).symm

theorem Before.withField {n : Nat} {d d' value : Datum} {name : String} (early : d.Before n)
    (hv : value.Before n) (h : d.withField name value = .ok d') : d'.Before n := by
  refine before_of_renamed fun f _ keeps => ?_
  have same := withField_renamed (f := f) d name value
  rw [early.renamed keeps, hv.renamed keeps, h] at same
  exact (Except.ok.inj same).symm

end Datum

namespace World

theorem root_renamed (f : Nat → Nat) (w : World) (root : Root) :
    (w.renamed f).root root = Datum.renamedAnswer f (w.root root) := by
  cases root with
  | slot index => exact slotValue_renamed w.locals index
  | field name =>
    change Failure.lift ((w.receiver.renamed f).member name) = _
    rw [Datum.member_renamed, root, Datum.renamedAnswer_lift]

theorem Before.root {n : Nat} {w : World} (early : w.Before n) {root : Root} {d : Datum}
    (h : w.root root = .ok d) : d.Before n := by
  refine Datum.before_of_renamed fun f _ keeps => ?_
  have same := root_renamed f w root
  rw [early.renamed_eq_self keeps, h] at same
  exact (Except.ok.inj same).symm

end World

/-! ## Each container read once, and read anew -/

theorem Evaluation.lift_ok (d : Datum) : lift (.ok d) = pure d := rfl

theorem Evaluation.eq_ok_of_run_lift {r : Except Failure Datum} {d : Datum} {c c' : Nat}
    (h : (lift r).run c = .ok (d, c')) : r = .ok d := by
  cases r with
  | error failure => cases h
  | ok x =>
    cases h
    rfl

namespace Expr

/-- An assignment in one recursion: each container is read once, and put together again with what has been
made of its part. -/
def along (s : Scope) (w : World) (new : Evaluation Datum → Evaluation Datum)
    (whole : Except Failure Datum) : List (Step Expr) → Evaluation Datum
  | [] => new (lift whole)
  | step :: rest => do
    let d ← lift whole
    let step ← step.value s w
    let value ← along s w new (d.part step) rest
    lift (d.withPart step value)

theorem along_eq (s : Scope) (w : World) (new : Evaluation Datum → Evaluation Datum)
    (whole : Except Failure Datum) (route : List (Step Expr)) : along s w new whole route = (do
      let path ← located s w whole route
      let value ← new (lift (Datum.partAlong whole path))
      lift (Datum.replaced value whole path)) := by
  induction route generalizing whole with
  | nil =>
    rw [along, located, pure_bind, Datum.partAlong]
    exact (bind_pure _).symm
  | cons step rest ih =>
    cases whole with
    | error failure => rfl
    | ok d =>
      rw [along, located]
      simp only [Evaluation.lift_ok, pure_bind, bind_assoc, ih]
      refine bind_congr fun k => bind_congr fun path => bind_congr fun value => ?_
      rw [Datum.replaced, ok_bind]
      cases value.replaced (d.part k) path <;> rfl

/-- The part that a step leads to, of a whole that is read anew. -/
def reread (s : Scope) (w : World) (whole : Evaluation Datum) (step : Step Expr) : Evaluation Datum := do
  let d ← whole
  let step ← step.value s w
  lift (d.part step)

/-- The whole with the part at the end of a route replaced, where each container is read anew. -/
def rebuilt (s : Scope) (w : World) (new : Evaluation Datum → Evaluation Datum)
    (whole : Evaluation Datum) : List (Step Expr) → Evaluation Datum
  | [] => new whole
  | step :: rest => do
    let d ← whole
    let part ← step.value s w
    let value ← rebuilt s w new (reread s w whole step) rest
    lift (d.withPart part value)

/-- A whole is read by an evaluation as often as need be, with its marks renamed. -/
def Rereads (f : Nat → Nat) (n c : Nat) (whole : Except Failure Datum) (read : Evaluation Datum) : Prop :=
  ∀ k, f c ≤ k → match whole with
    | .ok d => d.Before n ∧ ∃ k', k ≤ k' ∧ read.run k = .ok (d.renamed f, k')
    | .error failure => ∃ g : Nat → Nat, g.Injective ∧ read.run k = .error (failure.renamed g)

section Rereads

variable {s : Scope} {w : World} {f g : Nat → Nat} {n c c' : Nat} {whole : Except Failure Datum}
  {read : Evaluation Datum}

theorem Rereads.mono (h : Rereads f n c whole read) (first : Renames f n) (start : n ≤ c) (le : c ≤ c') :
    Rereads f n c' whole read := by
  intro k hk
  refine h k (Nat.le_trans ?_ hk)
  rw [(first.later start).apply_of_le le]
  exact Nat.le_add_right _ _

theorem Rereads.echoes (h : Rereads f n c whole read) (goes : Continues f n g c) :
    Echoes Datum.renamed g c ((lift whole).run c) (read.run (g c)) := by
  have found := h (g c) goes.ahead
  cases whole with
  | error failure => exact found
  | ok d =>
    obtain ⟨before, k, le, found⟩ := found
    have further : Continues g c (moved g c k) c := (Continues.refl goes.renames).moved le
    refine ⟨early_iff.mpr (before.mono goes.le), _, further, ?_⟩
    rw [found, moved_self]
    refine congrArg (fun d => Except.ok (d, k)) (Datum.renamed_congr fun j hj => ?_)
    rw [further.keeps j (Nat.lt_of_lt_of_le (before j hj) goes.le), goes.keeps j (before j hj)]

/-- Locals and fields are read as often as need be. -/
theorem rereads_root (first : Renames f n) (early : w.Before n) (root : Root) :
    Rereads f n n (w.root root) (lift ((w.renamed f).root root)) := by
  intro k _
  rw [World.root_renamed]
  cases found : w.root root with
  | error failure => exact ⟨f, first.injective, rfl⟩
  | ok d => exact ⟨early.root found, k, Nat.le_refl k, rfl⟩

/-- So are their parts: a place in an array is evaluated alike each time. -/
theorem Rereads.part (early : w.Before n) {d : Datum} (h : Rereads f n c (.ok d) read)
    (first : Renames f n) (start : n ≤ c) {step : Step Expr} {part : Step Datum}
    (value : (step.value s w).run c = .ok (part, c')) :
    Rereads f n c (d.part part) (reread s (w.renamed f) read step) := by
  intro k hk
  obtain ⟨before, k', le, found⟩ := h k hk
  have goes : Continues f n (moved f c k') c :=
    ((Continues.refl first).later start).moved (Nat.le_trans hk le)
  have again := step.value_echoes (s := s) early goes
  rw [value, moved_self] at again
  obtain ⟨-, g, further, again⟩ := again
  have keeps : ∀ {x : Datum}, x.Before n → x.renamed g = x.renamed f := fun hx =>
    Datum.renamed_congr fun j hj => by
      rw [further.keeps j (Nat.lt_of_lt_of_le (hx j hj) start), goes.keeps j (hx j hj)]
  have run : (reread s (w.renamed f) read step).run k =
      (Datum.renamedAnswer g (d.part part)).map (·, g c') := by
    unfold reread
    rw [StateT.run_bind, found, ok_bind]
    dsimp only
    rw [StateT.run_bind, again, ok_bind]
    dsimp only
    rw [← keeps before, Datum.part_renamed]
    rfl
  rw [run]
  cases made : d.part part with
  | error failure => exact ⟨g, further.renames.injective, rfl⟩
  | ok x =>
    have own : x.Before n := before.part made
    have ahead : k' ≤ g c' := by
      have later := further.ahead
      rw [goes.renames.apply_of_le further.le, moved_self] at later
      omega
    refine ⟨own, g c', Nat.le_trans le ahead, ?_⟩
    rw [← keeps own]
    rfl

end Rereads

/-- Where each container is read anew the whole comes to the same as where each is read once, up to marks,
provided that so does what is made of the last part. -/
theorem rebuilt_echoes {s : Scope} {w : World} {f : Nat → Nat} {n : Nat} (early : w.Before n)
    {new new' : Evaluation Datum → Evaluation Datum}
    (last : ∀ {g : Nat → Nat} {c : Nat} {whole : Except Failure Datum} {read : Evaluation Datum},
      Continues f n g c → Rereads f n c whole read →
      Echoes Datum.renamed g c ((new (lift whole)).run c) ((new' read).run (g c)))
    (route : List (Step Expr)) {g : Nat → Nat} {c : Nat} {whole : Except Failure Datum}
    {read : Evaluation Datum} (h : Continues f n g c) (rereads : Rereads f n c whole read) :
    Echoes Datum.renamed g c ((along s w new whole route).run c)
      ((rebuilt s (w.renamed f) new' read route).run (g c)) := by
  induction route generalizing g c whole read with
  | nil => exact last h rereads
  | cons step rest ih =>
    rw [rebuilt, along]
    refine (rereads.echoes h).bind fun d c₁ g₁ found hd goes => ?_
    have here : Continues f n g₁ c₁ := h.trans goes
    refine (step.value_echoes early here).bind fun part c₂ g₂ value hp goes' => ?_
    have there : Continues f n g₂ c₂ := here.trans goes'
    have parts : Rereads f n c₂ (d.part part) (reread s (w.renamed f) read step) := by
      obtain rfl := Evaluation.eq_ok_of_run_lift found
      exact (Rereads.part early (rereads.mono h.first h.le goes.le) h.first here.le value).mono h.first
        here.le goes'.le
    refine (ih there parts).bind fun x c₃ g₃ made hx goes'' => ?_
    have whole' : d.renamed g₁ = d.renamed g₃ := hd _ _ fun k hk => ((goes'.trans goes'').keeps k hk).symm
    have part' : part.renamed g₂ = part.renamed g₃ := hp _ _ fun k hk => (goes''.keeps k hk).symm
    rw [whole', part', Datum.withPart_renamed]
    cases put : d.withPart part x with
    | error failure => exact ⟨g₃, goes''.renames.injective, rfl⟩
    | ok y =>
      have before : y.Before c₃ :=
        ((early_iff.mp hd).mono (Nat.le_trans goes'.le goes''.le)).withPart (early_iff.mp hx) put
      exact ⟨early_iff.mpr before, g₃, .refl goes''.renames, rfl⟩

/-- What is made of the old part: something that does not depend on it, or that begins by reading it. -/
inductive Updates (new : World → Evaluation Datum → Evaluation Datum) : Prop
  | anew {v : World → Datum → Evaluation Datum} (uniform : Uniform v)
      (same : ∀ w old, new w old = v w .null) : Updates new
  | ofOld {v : World → Datum → Evaluation Datum} (uniform : Uniform v)
      (same : ∀ w old, new w old = old >>= v w) : Updates new

theorem Updates.echoes {new : World → Evaluation Datum → Evaluation Datum} (h : Updates new) {w : World}
    {f g : Nat → Nat} {n c : Nat} {whole : Except Failure Datum} {read : Evaluation Datum}
    (early : w.Before n) (goes : Continues f n g c) (rereads : Rereads f n c whole read) :
    Echoes Datum.renamed g c ((new w (lift whole)).run c) ((new (w.renamed f) read).run (g c)) := by
  cases h with
  | anew uniform same =>
    rw [same, same]
    exact uniform.echoes early (fun _ hk => by cases hk) goes
  | ofOld uniform same =>
    rw [same, same]
    refine (rereads.echoes goes).bind fun d c' g' _ own further => ?_
    have all : Continues f n g' c' := goes.trans further
    rw [early.renamed_congr fun k hk => (all.keeps k hk).symm]
    exact uniform.echoes (early.mono all.le) (early_iff.mp own) (.refl all.renames)

theorem updates_assigned (s : Scope) (type : Option Ty) (op : AssignOp) (value : Expr) :
    Updates (assigned s type op value) := by
  unfold assigned
  cases op.operator? with
  | none => exact .anew (value.uniform_value s type) fun _ _ => rfl
  | some op =>
    refine .ofOld (v := fun w a => do applied op type a (← value.value s w type)) ?_ fun _ _ => rfl
    exact fun f inj w a => .bind (value.value_alike inj s w type) fun b => applied_alike inj ..

theorem updates_pushed (s : Scope) (element : Option Ty) (item : Expr) :
    Updates (pushed s element item) := by
  refine .ofOld (v := fun w d => do lift (d.extended (← item.value s w element))) ?_ fun _ _ => rfl
  exact fun f inj w d => .bind (item.value_alike inj s w element) fun x =>
    .lift (Datum.extended_renamed ..)

end Expr

/-! ## The code of an assignment -/

/-- One instruction that answers with what is made of a value that is stored. -/
theorem Delivers.of_storing {code : LinkedCode} {around : Surroundings} {m m' : Machine} {j : Instruction Nat}
    {place : Place} {x : Datum} {r : Except Failure Datum} {stack : List Datum}
    (here : code[m.place]? = some j)
    (stores : (execute around j).run { m with steps := m.steps + 1, place := m.place + 1 } =
      storing place x m' (answer r ⟨stack, m.locals, m.receiver, m.place + 1, m.steps + 1, m.computed⟩)) :
    Delivers code around m (m.place + 1) ((· :: stack) <$> lift (Datum.kept place x r)) := by
  by_cases absent : x = .null
  · subst absent
    have next := step_of_instruction (s := around) here
    rw [stores] at next
    exact ⟨0, m, .refl m, m', next⟩
  · have kept : Datum.kept place x r = r := by
      cases x <;> first | rfl | exact absurd rfl absent
    rw [kept]
    refine .of_answer here (stores.trans ?_) rfl
    cases x <;> first | rfl | exact absurd rfl absent

theorem Term.Computes.appended {a b : Term} {v v' : World → Evaluation Datum} (ha : a.Computes v)
    (hb : b.Computes v') : (Term.appended a b).Computes
      fun w => v w >>= fun d => v' w >>= fun e => lift (d.extended e) := by
  refine .binary (fun n => rfl) ha hb fun l s d e st lo r place n c ⟨j, hj, here⟩ => ?_
  cases hj
  exact .of_storing here (execute_arrayPush ..)

/-- A step of a path is that of a route. -/
def PathStep.Stands (s : Scope) : Step Expr → PathStep → Prop
  | .member name, .member word => name = word
  | .element place, .element p => p.Computes fun w => place.value s w (some .u32)
  | _, _ => False

theorem PathStep.Stands.read {s : Scope} {step : Step Expr} {p : PathStep} (stands : Stands s step p)
    {t : Term} {v : World → Evaluation Datum} (h : t.Computes v) :
    (p.read t).Computes fun w => Expr.reread s w (v w) step := by
  cases step with
  | member name =>
    cases p with
    | member word =>
      cases stands
      exact h.member name
    | element => cases stands
  | element place =>
    cases p with
    | member => cases stands
    | element p =>
      have index : p.Computes fun w => place.value s w (some .u32) := stands
      refine (h.element index).congr fun w => ?_
      unfold Expr.reread
      simp only [Step.value, bind_assoc, pure_bind]
      rfl

/-- The code of a path puts the whole on the stack with the part at its end replaced. -/
theorem delivers_codeAlong {s : Scope} {new : World → Evaluation Datum → Evaluation Datum}
    {route : List (Step Expr)} {path : List PathStep} (stands : List.Forall₂ (PathStep.Stands s) route path)
    {read value : Term} {v : World → Evaluation Datum} (whole : read.Computes v)
    (last : value.Computes fun w => new w (route.foldl (Expr.reread s w) (v w))) (l : Linkage) (n : Nat)
    (around : Surroundings) (m : Machine) (holds : l.Holds m.place (Term.codeAlong n read value path)) :
    Delivers l.code around m (m.place + size (Term.codeAlong n read value path))
      ((· :: m.stack) <$> Expr.rebuilt s ⟨around, m.locals, m.receiver⟩ (new ⟨around, m.locals, m.receiver⟩)
        (v ⟨around, m.locals, m.receiver⟩) route) := by
  induction stands generalizing read v n m with
  | nil => exact last l n m.place holds around m rfl
  | @cons step p route path first _ ih =>
    have part := first.read whole
    cases step with
    | member name =>
      cases p with
      | element => cases first
      | member word =>
        cases first
        rw [Term.codeAlong] at holds ⊢
        obtain ⟨both, ⟨j, hj, here⟩, -⟩ := Linkage.holds_append.mp holds
        obtain ⟨before, inside⟩ := Linkage.holds_append.mp both
        cases hj
        simp only [size_append, size_op, size_nil, ← Nat.add_assoc, Nat.add_zero] at here ⊢
        rw [Expr.rebuilt, map_bind]
        refine .bind (whole l n m.place before around m rfl) fun d c k _ => ?_
        rw [Step.value, pure_bind, map_bind]
        refine .bind (ih part last _ _ inside) fun x c' k' _ => ?_
        exact .of_storing here (execute_setField ..)
    | element place =>
      cases p with
      | member => cases first
      | element p =>
        rw [Term.codeAlong] at holds ⊢
        obtain ⟨all, ⟨j, hj, here⟩, -⟩ := Linkage.holds_append.mp holds
        obtain ⟨both, inside⟩ := Linkage.holds_append.mp all
        obtain ⟨before, index⟩ := Linkage.holds_append.mp both
        cases hj
        simp only [size_append, size_op, size_nil, ← Nat.add_assoc, Nat.add_zero] at here inside ⊢
        rw [Expr.rebuilt, map_bind]
        refine .bind (whole l n m.place before around m rfl) fun d c k _ => ?_
        rw [Step.value, bind_assoc, map_bind]
        refine .bind (first l _ _ index around _ rfl) fun i c' k' _ => ?_
        rw [pure_bind, map_bind]
        refine .bind (ih part last _ _ inside) fun x c'' k'' _ => ?_
        exact .of_storing here (execute_arraySet ..)

/-! ## Targets that have been accepted -/

namespace Expr

theorem root_member {s : Scope} {object : Expr} (other : ∀ own, object ≠ .this own) (word : String)
    (line : Nat) : root s (.member object word line) = root s object := by
  cases object <;> first | rfl | exact absurd rfl (other _)

theorem route_member {object : Expr} (other : ∀ own, object ≠ .this own) (word : String) (line : Nat) :
    route (.member object word line) = route object ++ [.member word] := by
  cases object <;> first | rfl | exact absurd rfl (other _)

/-- What a target is compiled to: its root, its path, and a term that reads it. -/
structure Targets.Read (s : Scope) (e : Expr) (target : Target) : Prop where
  root : target.root = e.root s
  stands : List.Forall₂ (PathStep.Stands s) e.route target.path
  read : target.read.Computes fun w => e.route.foldl (reread s w) (lift (w.root (e.root s)))
  type : e.typeOf s none = some target.type

theorem Targets.isRead {s : Scope} {e : Expr} {target : Target} (h : e.Targets s target) :
    Targets.Read s e target := by
  induction h with
  | @name word line slot plain found =>
    have root : Expr.root s (.name word line) = .slot slot := by rw [Expr.root, found, Option.getD_some]
    refine ⟨root.symm, .nil, ?_, by rw [typeOf, found]; rfl⟩
    rw [root]
    exact Term.computes_slot _
  | field found => exact ⟨rfl, .nil, Term.computes_field _, found⟩
  | @member object word name line whole fields type other plain first struct found ih =>
    have step : PathStep.Stands s (.member word) (.member word) := rfl
    refine ⟨ih.root.trans (root_member other _ _).symm, ?_, ?_, ?_⟩
    · rw [route_member other]
      exact List.rel_append ih.stands (.cons step .nil)
    · rw [route_member other, root_member other]
      simp only [List.foldl_append]
      exact step.read ih.read
    · rw [typeOf_member other, plain, ih.type, struct]
      exact found
  | @element object place line whole p element type first array index integer ih =>
    have step : PathStep.Stands s (.element place) (.element p) := index.computes
    refine ⟨ih.root, List.rel_append ih.stands (.cons step .nil), ?_, ?_⟩
    · simp only [route, List.foldl_append]
      exact step.read ih.read
    · rw [typeOf, ih.type, Target.step, array]
      rfl

end Expr

theorem Stmt.operates_of_combined {op : AssignOp} {type : Ty} {old value t : Term} {line : Nat}
    (h : combined op type old value line = .ok t) : (op.operator? = none ∧ t = value) ∨
      ∃ o type', op.operator? = some o ∧ Operates o old value type t type' := by
  have computed : ∀ (o : BinaryOp) (a : Arith), op.operator? = some o → o.arith? = some a →
      type.onNumbers op.text line (fun p => Term.arith a p old value) = .ok t →
      ∃ o type', op.operator? = some o ∧ Operates o old value type t type' := by
    intro o a known stands h
    obtain ⟨p, rfl, numeric, rfl⟩ := Ty.numeric_of_onNumbers h
    exact ⟨o, _, known, .arith stands numeric⟩
  cases op with
  | set =>
    cases h
    exact .inl ⟨rfl, rfl⟩
  | add =>
    refine .inr ?_
    simp only [combined] at h
    split at h
    next text =>
      cases h
      subst text
      exact ⟨.add, _, rfl, .join rfl⟩
    next => exact computed .add .add rfl rfl h
  | sub => exact .inr (computed .sub .sub rfl rfl h)

/-- The term that an assignment stores has the value that is made of the old one. -/
theorem Stmt.computes_combined {s : Scope} {op : AssignOp} {type : Ty} {old value t : Term} {line : Nat}
    {e : Expr} (h : combined op type old value line = .ok t) {v : World → Evaluation Datum}
    (ho : old.Computes v) (hv : value.Computes fun w => e.value s w (some type)) :
    t.Computes fun w => e.assigned s (some type) op w (v w) := by
  rcases operates_of_combined h with ⟨none, rfl⟩ | ⟨o, type', some, operates⟩
  · refine hv.congr fun w => ?_
    rw [Expr.assigned, none]
  · refine (operates.computes ho hv).congr fun w => ?_
    rw [Expr.assigned, some]

end Covenant
