import Covenant.Proofs.Compile.Description
import Covenant.Proofs.Emitter.Basic
import Covenant.Proofs.Term.Inference
/-!
What an emission does, when of the table of types only some property is known.

* `Emitter.wrote`, `Emitter.term`, `Emitter.put`: the state after code has been emitted, and after that of what an
  expression turns out to be has;
* `Emits`: from a state that is known but for its table, an emission gives what a computation does; emissions are put
  together by `Emits.bind` and the like.
-/

namespace Covenant

namespace Typed

def type? : Typed → Option Ty
  | .value _ type => some type
  | .effect _ => none

def labels : Typed → Nat
  | .value t _ => t.labels
  | .effect a => a.labels

def code (n : Nat) : Typed → Code
  | .value t _ => t.code n
  | .effect a => a.code n

def followed : Typed → List String
  | .value t _ => t.followed
  | .effect a => a.followed

end Typed

/-- The type that is found for an expression when nothing is expected, none where it has no value. -/
def Expr.result (s : Scope) (e : Expr) : Except CompileError (Option Ty) := (e.typed s none).map Typed.type?

namespace Emitter

/-- Code has been emitted that takes labels and follows references. -/
def wrote (σ : Emitter) (code : Code) (labels : Nat) (followed : List String) : Emitter :=
  { σ with code := σ.code ++ code, labels := σ.labels + labels, followed := σ.noted followed }

variable {σ σ' : Emitter}

theorem noted_nil : σ.noted [] = σ.followed := ite_self _

theorem noted_append (a b : List String) : σ.noted (a ++ b) = (σ.follow a).noted b := by
  simp only [noted, follow]
  split
  · exact List.foldl_append
  · rfl

@[simp] theorem wrote_wrote (c c' : Code) (n n' : Nat) (f f' : List String) :
    (σ.wrote c n f).wrote c' n' f' = σ.wrote (c ++ c') (n + n') (f ++ f') := by
  have notes : (σ.wrote c n f).noted f' = σ.noted (f ++ f') := (noted_append f f').symm
  rw [wrote, notes]
  simp only [wrote, List.append_assoc, Nat.add_assoc]

theorem wrote_nil : σ.wrote [] 0 [] = σ := by
  simp only [wrote, noted_nil, List.append_nil, Nat.add_zero]

theorem add_eq (line : Line) : σ.add line = σ.wrote [line] 0 [] := by
  simp only [add, wrote, noted_nil, Nat.add_zero]

theorem follow_eq (names : List String) : σ.follow names = σ.wrote [] 0 names := by
  simp only [follow, wrote, List.append_nil, Nat.add_zero]

@[simp] theorem labels_wrote (c : Code) (n : Nat) (f : List String) : (σ.wrote c n f).labels = σ.labels + n := rfl

/-- The code of a term has been emitted. -/
def term (σ : Emitter) (t : Term) : Emitter := σ.wrote (t.code σ.labels) t.labels t.followed

def terms (σ : Emitter) (ts : List Term) : Emitter :=
  σ.wrote (Term.codeOfItems σ.labels ts) (Term.labelsOfItems ts) (Term.followedByItems ts)

/-- The code has been emitted for a whole with the value at the end of a path replaced. -/
def along (σ : Emitter) (read value : Term) (path : List PathStep) : Emitter :=
  σ.wrote (Term.codeAlong σ.labels read value path) (Term.labelsAlong read value path)
    (Term.followedAlong read value path)

/-- The code of an expression has been emitted. -/
def put (σ : Emitter) (r : Typed) : Emitter := σ.wrote (r.code σ.labels) r.labels r.followed

/-- An operator on the last two terms. -/
theorem term_operator {a b t : Term} {i : Instruction String}
    (code : ∀ n, t.code n = a.code n ++ b.code (n + a.labels) ++ [.op i]) (labels : t.labels = a.labels + b.labels)
    (followed : t.followed = a.followed ++ b.followed) :
    ((σ.term a).term b).wrote [.op i] 0 [] = σ.term t := by
  simp only [term, code, labels, followed, wrote_wrote, labels_wrote, List.append_nil, Nat.add_zero]

theorem along_store (root : Root) (path : List PathStep) (t : Term) :
    (σ.along root.read t path).wrote [root.store] 0 [] = σ.put (.effect (.assign root path t)) := by
  simp only [along, put, wrote_wrote, Typed.code, Typed.labels, Typed.followed, Action.code, Action.labels,
    Action.followed, List.append_nil, Nat.add_zero]

theorem along_member (read t : Term) (name : String) (path : List PathStep) :
    (((σ.term read).along (.member read name) t path).wrote [.op (.setField name)] 0 []) =
      σ.along read t (.member name :: path) := by
  simp only [along, term, wrote_wrote, labels_wrote, Term.codeAlong, Term.labelsAlong, Term.followedAlong,
    List.append_nil, Nat.add_zero]

theorem along_element (read place t : Term) (path : List PathStep) :
    ((((σ.term read).term place).along (.element read place) t path).wrote [.op .arraySet] 0 []) =
      σ.along read t (.element place :: path) := by
  simp only [along, term, wrote_wrote, labels_wrote, Term.codeAlong, Term.labelsAlong, Term.followedAlong,
    List.append_nil, Nat.add_zero, List.append_assoc, Nat.add_assoc]

/-- What is emitted while a branch is open follows no reference. -/
theorem wrote_branch (c : Code) (n : Nat) (f : List String) :
    { { σ with branches := σ.branches + 1 }.wrote c n f with branches := σ.branches } = σ.wrote c n [] := by
  have open_ : ¬ (σ.branches + 1 = 0 ∧ σ.leftEarly = false) := fun h => absurd h.1 (Nat.succ_ne_zero _)
  simp only [wrote, noted, if_neg open_, List.foldl_nil, ite_self]

/-! ## References noted ahead -/

theorem foldl_addNew_of_subset {names found : List String} (h : ∀ name ∈ names, name ∈ found) :
    names.foldl addNew found = found := by
  induction names with
  | nil => rfl
  | cons first rest ih =>
    rw [List.forall_mem_cons] at h
    rw [List.foldl_cons, addNew, if_pos (List.contains_iff_mem.mpr h.1)]
    exact ih h.2

/-- What is noted twice is noted once. -/
theorem noted_follow (names : List String) : (σ.follow names).noted names = σ.noted names := by
  simp only [noted, follow]
  split
  · exact foldl_addNew_of_subset fun name h => mem_foldl_addNew.mpr (.inr h)
  · rfl

end Emitter

/-! ## Emissions -/

variable {I J K : TypeTable → Prop} {σ : Emitter} {α β γ δ : Type}

/-- A state is a given one but for its table, of which something is known. -/
structure Like (I : TypeTable → Prop) (τ σ : Emitter) : Prop where
  same : τ = { σ with types := τ.types }
  table : I τ.types

theorem Like.emptied {τ : Emitter} (like : Like I τ σ) : Like I { τ with code := [] } { σ with code := [] } := by
  refine ⟨?_, like.table⟩
  rw [like.same]

/-- From a state that is a given one but for its table, an emission gives what a computation does, or fails as that. -/
structure Emits (I J : TypeTable → Prop) (σ : Emitter) (m : Emission α) (x : Except CompileError β)
    (out : β → α × Emitter) : Prop where
  fails : ∀ {τ e}, Like I τ σ → x = .error e → m.run τ = .error e
  goes : ∀ {τ b}, Like I τ σ → x = .ok b → ∃ τ', m.run τ = .ok ((out b).1, τ') ∧ Like J τ' (out b).2

namespace Emits

variable {m : Emission α} {x : Except CompileError β} {out : β → α × Emitter} {f : α → Emission γ}
  {y : β → Except CompileError δ} {z : Except CompileError δ} {out' : δ → γ × Emitter}

theorem bind (first : Emits I K σ m x out) (next : ∀ b, x = .ok b → Emits K J (out b).2 (f (out b).1) (y b) out') :
    Emits I J σ (m >>= f) (x >>= y) out' where
  fails {τ e} like h := by
    rw [StateT.run_bind]
    rcases bind_eq_error.mp h with h | ⟨b, hb, h⟩
    · rw [first.fails like h]
      rfl
    · obtain ⟨τ', run, like'⟩ := first.goes like hb
      rw [run]
      exact (next b hb).fails like' h
  goes {τ d} like h := by
    obtain ⟨b, hb, h⟩ := bind_eq_ok.mp h
    obtain ⟨τ', run, like'⟩ := first.goes like hb
    rw [StateT.run_bind, run]
    exact (next b hb).goes like' h

/-- More may be known before, and less is of use afterwards. -/
theorem imp {I' J' : TypeTable → Prop} (h : Emits I J σ m x out) (before : ∀ types, I' types → I types)
    (after : ∀ types, J types → J' types) : Emits I' J' σ m x out where
  fails like := h.fails ⟨like.same, before _ like.table⟩
  goes like goes := by
    obtain ⟨τ', run, like'⟩ := h.goes ⟨like.same, before _ like.table⟩ goes
    exact ⟨τ', run, like'.same, after _ like'.table⟩

/-- After an emission that does not fail. -/
theorem done_bind {b : β} (first : Emits I K σ m (.ok b) out) (next : Emits K J (out b).2 (f (out b).1) z out') :
    Emits I J σ (m >>= f) z out' :=
  first.bind (y := fun _ => z) fun _ same => by
    cases same
    exact next

theorem pure {a : α} {b : β} (h : out b = (a, σ)) : Emits I I σ (Pure.pure a) (.ok b) out where
  fails _ h' := nomatch h'
  goes {τ b'} like h' := by
    obtain rfl : b = b' := Except.ok.inj h'
    rw [h]
    exact ⟨τ, rfl, like⟩

theorem fail (complaint : Complaint) (line : Nat) :
    Emits I J σ (Emission.fail complaint line : Emission α) (CompileError.throw complaint line) out where
  fails {τ e} _ h := by
    obtain rfl := Except.error.inj h
    rfl
  goes _ h := nomatch h

theorem fail_bind (complaint : Complaint) (line : Nat) :
    Emits I J σ ((Emission.fail complaint line : Emission α) >>= f) (CompileError.throw complaint line) out' where
  fails {τ e} _ h := by
    obtain rfl := Except.error.inj h
    rfl
  goes _ h := nomatch h

/-- Only the results that there are matter. -/
theorem congr {out₁ : β → α × Emitter} (h : Emits I J σ m x out) (same : ∀ b, x = .ok b → out b = out₁ b) :
    Emits I J σ m x out₁ where
  fails like hx := h.fails like hx
  goes like hx := same _ hx ▸ h.goes like hx

/-- What is made of the results is not emitted. -/
theorem map {g : β → δ} {out' : δ → α × Emitter} (h : Emits I J σ m x out) (same : ∀ b, out' (g b) = out b) :
    Emits I J σ m (x >>= fun b => Pure.pure (g b)) out' where
  fails like hx := by
    obtain failed | ⟨b, -, never⟩ := bind_eq_error.mp hx
    · exact h.fails like failed
    · cases never
  goes like hx := by
    obtain ⟨b, hb, made⟩ := bind_eq_ok.mp hx
    cases made
    rw [same]
    exact h.goes like hb

theorem lift_bind {x : Except CompileError α} {y : α → Except CompileError δ}
    (next : ∀ a, x = .ok a → Emits I J σ (f a) (y a) out') :
    Emits I J σ ((liftM x : Emission α) >>= f) (x >>= y) out' := by
  cases x with
  | error e => exact ⟨fun _ h => by cases h; rfl, fun _ h => nomatch h⟩
  | ok a => exact ⟨(next a rfl).fails, (next a rfl).goes⟩

/-- What is known of the state, but for its table, can be asked for. -/
theorem get_bind {f : Emitter → Emission γ} (next : ∀ types, Emits I J σ (f { σ with types := types }) z out') :
    Emits I J σ (get >>= f) z out' where
  fails {τ _} like h := by
    have rest := (next τ.types).fails like h
    rwa [← like.same] at rest
  goes {τ _} like h := by
    have rest := (next τ.types).goes like h
    rwa [← like.same] at rest

theorem modifyGet_bind {g : Emitter → α × Emitter}
    (table : ∀ types, g { σ with types := types } = ((g σ).1, { (g σ).2 with types := types }))
    (next : Emits I J (g σ).2 (f (g σ).1) z out') : Emits I J σ (modifyGet g >>= f) z out' := by
  have step : ∀ {τ}, Like I τ σ → ∃ τ', g τ = ((g σ).1, τ') ∧ Like I τ' (g σ).2 := by
    intro τ like
    refine ⟨{ (g σ).2 with types := τ.types }, ?_, rfl, like.table⟩
    rw [like.same]
    exact table _
  have run : ∀ {τ τ'}, g τ = ((g σ).1, τ') → (modifyGet g >>= f).run τ = (f (g σ).1).run τ' := by
    intro τ τ' h
    change (f (g τ).1).run (g τ).2 = _
    rw [h]
  constructor
  · intro τ e like h
    obtain ⟨τ', stepped, like'⟩ := step like
    rw [run stepped]
    exact next.fails like' h
  · intro τ d like h
    obtain ⟨τ', stepped, like'⟩ := step like
    rw [run stepped]
    exact next.goes like' h

section Steps

variable {f : Unit → Emission γ}

theorem modify_bind {g : Emitter → Emitter}
    (table : ∀ types, g { σ with types := types } = { g σ with types := types })
    (next : Emits I J (g σ) (f ()) z out') : Emits I J σ (modify g >>= f) z out' :=
  modifyGet_bind (g := fun σ => ((), g σ)) (fun types => by rw [table]) next

theorem emit_bind {i : Instruction String} (next : Emits I J (σ.wrote [.op i] 0 []) (f ()) z out') :
    Emits I J σ (Emission.emit i >>= f) z out' := by
  rw [← Emitter.add_eq] at next
  exact modify_bind (fun _ => rfl) next

theorem change {g : Emitter → Emitter} {b : β} {out : β → Unit × Emitter}
    (table : ∀ types, g { σ with types := types } = { g σ with types := types }) (same : g σ = (out b).2) :
    Emits I I σ (modify g) (.ok b) out := by
  have next : Emits I I σ (modify g >>= Pure.pure) (.ok b) out :=
    modify_bind table (.pure (congrArg ((), ·) same.symm))
  rwa [bind_pure] at next

theorem emit {i : Instruction String} {b : β} {out : β → Unit × Emitter} (same : σ.wrote [.op i] 0 [] = (out b).2) :
    Emits I I σ (Emission.emit i) (.ok b) out :=
  change (fun _ => rfl) ((Emitter.add_eq _).trans same)

theorem mark_bind {label : String} (next : Emits I J (σ.wrote [.label label] 0 []) (f ()) z out') :
    Emits I J σ (Emission.mark label >>= f) z out' := by
  rw [← Emitter.add_eq] at next
  exact modify_bind (fun _ => rfl) next

theorem mark {label : String} {b : β} {out : β → Unit × Emitter} (same : σ.wrote [.label label] 0 [] = (out b).2) :
    Emits I I σ (Emission.mark label) (.ok b) out :=
  change (fun _ => rfl) ((Emitter.add_eq _).trans same)

theorem follow_bind {name : String} (next : Emits I J (σ.wrote [] 0 [name]) (f ()) z out') :
    Emits I J σ (Emission.follow name >>= f) z out' := by
  rw [← Emitter.follow_eq] at next
  exact modify_bind (fun _ => rfl) next

theorem newLabel_bind {f : String → Emission γ} (next : Emits I J (σ.wrote [] 1 []) (f (labelName σ.labels)) z out') :
    Emits I J σ (Emission.newLabel >>= f) z out' := by
  have same : σ.wrote [] 1 [] = { σ with labels := σ.labels + 1 } := by
    simp only [Emitter.wrote, Emitter.noted_nil, List.append_nil]
  rw [same] at next
  exact modifyGet_bind (fun _ => rfl) next

end Steps

theorem branch_bind (first : Emits I K { σ with branches := σ.branches + 1 } m x out)
    (next : ∀ b, x = .ok b →
      Emits K J { (out b).2 with branches := (out b).2.branches - 1 } (f (out b).1) (y b) out') :
    Emits I J σ (Emission.branch m >>= f) (x >>= y) out' := by
  rw [Emission.branch, bind_assoc]
  refine modify_bind (fun _ => rfl) ?_
  rw [bind_assoc]
  refine first.bind fun b hb => ?_
  rw [bind_assoc]
  refine modify_bind (fun _ => rfl) ?_
  rw [pure_bind]
  exact next b hb

/-! ## Requirements -/

section Requirements

variable {m : Emission (Option Ty)} {x : Except CompileError Typed} {expected : Ty} {own line : Nat} {t : Term}
  {type : Ty}

theorem value_bind {f : Ty → Emission γ} {y : Term × Ty → Except CompileError δ}
    (h : Emits I K σ m x fun r => (r.type?, σ.put r))
    (next : ∀ t type, x = .ok (.value t type) → Emits K J (σ.term t) (f type) (y (t, type)) out') :
    Emits I J σ (Emission.value own m >>= f) (x >>= fun r => r.term own >>= y) out' := by
  rw [Emission.value, bind_assoc]
  refine h.bind fun r hr => ?_
  cases r with
  | value t type =>
    change Emits K J (σ.term t) (Pure.pure type >>= f) (y (t, type)) out'
    rw [pure_bind]
    exact next t type hr
  | effect a => exact fail_bind _ _

variable {f : Unit → Emission γ} {y : Term → Except CompileError δ}

theorem valueOf_bind (h : Emits I K σ m x fun r => (r.type?, σ.put r))
    (next : ∀ t, x = .ok (.value t expected) → Emits K J (σ.term t) (f ()) (y t) out') :
    Emits I J σ (Emission.valueOf expected own line m >>= f) (x >>= fun r => r.termOf expected own line >>= y)
      out' := by
  simp only [Emission.valueOf, Typed.termOf, bind_assoc]
  refine h.value_bind fun t found hx => ?_
  dsimp only
  split
  next same =>
    subst same
    rw [pure_bind, pure_bind]
    exact next t hx
  next => exact fail_bind _ _

theorem condition_bind (h : Emits I K σ m x fun r => (r.type?, σ.put r))
    (next : ∀ t, Emits K J (σ.term t) (f ()) (y t) out') :
    Emits I J σ (Emission.condition own line m >>= f) (x >>= fun r => r.condition own line >>= y) out' := by
  simp only [Emission.condition, Typed.condition, bind_assoc]
  refine h.value_bind fun t found hx => ?_
  dsimp only
  split
  next =>
    rw [pure_bind, pure_bind]
    exact next t
  next =>
    split
    next =>
      rw [pure_bind]
      refine emit_bind ?_
      have last := next (.truth t)
      rw [Emitter.term, Term.code, Term.labels, Term.followed] at last
      rw [Emitter.term, Emitter.wrote_wrote, List.append_nil, Nat.add_zero]
      exact last
    next => exact fail_bind _ _

theorem condition (h : Emits I J σ m x fun r => (r.type?, σ.put r)) :
    Emits I J σ (Emission.condition own line m) (x >>= fun r => r.condition own line) fun t => ((), σ.term t) := by
  have next : Emits I J σ (Emission.condition own line m >>= Pure.pure)
      (x >>= fun r => r.condition own line >>= Pure.pure) fun t => ((), σ.term t) :=
    h.condition_bind fun t => .pure rfl
  simp only [bind_pure] at next
  exact next

/-- A condition that is not always reached. -/
theorem branch_condition_bind {s : Scope} (same : σ.scope = s)
    (h : ∀ σ, σ.scope = s → Emits I K σ m x fun r => (r.type?, σ.put r))
    (next : ∀ t, Emits K J (σ.wrote (t.code σ.labels) t.labels []) (f ()) (y t) out') :
    Emits I J σ (Emission.branch (Emission.condition own line m) >>= f)
      (x >>= fun r => r.condition own line >>= y) out' := by
  rw [← bind_assoc]
  refine (h { σ with branches := σ.branches + 1 } same).condition.branch_bind fun t _ => ?_
  have back := next t
  rw [← Emitter.wrote_branch _ _ t.followed] at back
  exact back

theorem place_bind (h : Emits I K σ m x fun r => (r.type?, σ.put r))
    (next : ∀ t, x >>= Typed.place own line = .ok t → Emits K J (σ.term t) (f ()) (y t) out') :
    Emits I J σ (Emission.place own line m >>= f) (x >>= fun r => r.place own line >>= y) out' := by
  simp only [Emission.place, Typed.place, bind_assoc]
  refine h.value_bind fun t found hx => ?_
  dsimp only
  split
  next integer =>
    rw [pure_bind, pure_bind]
    refine next t ?_
    rw [hx]
    simp only [Typed.place, Typed.term, ok_bind, if_pos integer]
    rfl
  next => exact fail_bind _ _

/-- An expression whose value is known already. -/
theorem value_known {f : Ty → Emission γ} (h : Emits I K σ m x fun r => (r.type?, σ.put r))
    (known : x = .ok (.value t type)) (next : Emits K J (σ.term t) (f type) z out') :
    Emits I J σ (Emission.value own m >>= f) z out' := by
  subst known
  refine h.value_bind (y := fun _ => z) fun t' type' same => ?_
  obtain ⟨rfl, rfl⟩ := Typed.value.inj (Except.ok.inj same)
  exact next

theorem valueOf_known (h : Emits I K σ m x fun r => (r.type?, σ.put r)) (known : x = .ok (.value t type))
    (next : Emits K J (σ.term t) (f ()) z out') : Emits I J σ (Emission.valueOf type own line m >>= f) z out' := by
  rw [Emission.valueOf, bind_assoc]
  refine h.value_known known ?_
  rw [if_pos rfl, pure_bind]
  exact next

/-- An expression that has no value where one is needed. -/
theorem value_effect {f : Ty → Emission γ} {a : Action} (h : Emits I J σ m x fun r => (r.type?, σ.put r))
    (known : x = .ok (.effect a)) :
    Emits I J σ (Emission.value own m >>= f) (CompileError.throw .noValue own) out' := by
  subst known
  exact h.value_bind (y := fun _ => CompileError.throw .noValue own) nofun

/-! ## Operators on what is on the stack -/

theorem value {σ' : Emitter} (same : σ.term t = σ') :
    Emits I I σ' (Pure.pure (some type)) (.ok (.value t type)) fun r => (r.type?, σ.put r) :=
  .pure (congrArg (some type, ·) same)

theorem unary {t' : Term} {i : Instruction String} (code : ∀ n, t'.code n = t.code n ++ [.op i])
    (labels : t'.labels = t.labels) (followed : t'.followed = t.followed) :
    Emits I I (σ.term t) (do Emission.emit i; return some type) (.ok (.value t' type)) fun r => (r.type?, σ.put r) := by
  refine emit_bind (value ?_)
  rw [Emitter.term, Emitter.term, code, labels, followed, Emitter.wrote_wrote, List.append_nil, Nat.add_zero]

theorem binary {a b t' : Term} {i : Instruction String}
    (code : ∀ n, t'.code n = a.code n ++ b.code (n + a.labels) ++ [.op i]) (labels : t'.labels = a.labels + b.labels)
    (followed : t'.followed = a.followed ++ b.followed) :
    Emits I I ((σ.term a).term b) (do Emission.emit i; return some type) (.ok (.value t' type))
      fun r => (r.type?, σ.put r) :=
  emit_bind (value (Emitter.term_operator code labels followed).symm)

end Requirements

end Emits

end Covenant
