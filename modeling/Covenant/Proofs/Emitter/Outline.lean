import Covenant.Proofs.Emitter.Emits
/-!
Inference, where the table of types is sound for a tree of expressions.

* `Emitter.Ahead`: a state in which references may be noted before the code that follows them is emitted;
* `Outline.Knows`: what a table knows of the expressions of a tree is what is found for them;
* `Outline.infer_bind`: inference goes on from the same state, but references may be noted ahead.
-/

namespace Covenant

namespace Emitter

variable {σ σ' : Emitter}

/-- The state, where the references that an expression follows may be noted already. -/
def Ahead (σ : Emitter) (r : Typed) (σ' : Emitter) : Prop := σ' = σ ∨ σ' = σ.follow r.followed

theorem Ahead.scope {r : Typed} {s : Scope} (h : Ahead σ r σ') (same : σ.scope = s) : σ'.scope = s := by
  rcases h with rfl | rfl
  · exact same
  · exact same

/-- When the expression itself is emitted, it does not matter that its references were noted ahead. -/
theorem Ahead.term {t : Term} {type : Ty} (h : Ahead σ (.value t type) σ') : σ'.term t = σ.term t := by
  rcases h with rfl | rfl
  · rfl
  · have once : (σ.follow t.followed).noted t.followed = σ.noted t.followed := noted_follow _
    simp only [Emitter.term, wrote, Typed.followed, once]
    rfl

/-- A term that follows no reference leaves the state as far ahead. -/
theorem Ahead.of_term {t : Term} {r : Typed} (h : Ahead σ r σ') (none : t.followed = []) :
    Ahead (σ.term t) r (σ'.term t) := by
  rcases h with rfl | rfl
  · exact .inl rfl
  · refine .inr ?_
    simp only [Emitter.term, follow_eq, none, wrote_wrote, labels_wrote, List.nil_append, List.append_nil,
      Nat.zero_add, Nat.add_zero]

end Emitter

/-- What stands at the positions of a tree, and the types that were known before. -/
structure Outline where
  node : Position → Option Expr
  part : ∀ {position e i part}, node position = some e → e.parts[i]? = some part →
    node (position ++ [i]) = some part
  before : TypeTable

namespace Outline

open Covenant.Emits

variable {o : Outline} {σ : Emitter} {α β γ δ : Type}

/-- A table knows the types of expressions in the tree as they are found in a scope, and else what was known before. -/
structure Knows (o : Outline) (s : Scope) (types : TypeTable) : Prop where
  found : ∀ {position e type}, o.node position = some e → types.lookup position = some type → e.result s = .ok type
  else_ : ∀ {position}, o.node position = none → types.lookup position = o.before.lookup position

/-- One more type is known. -/
theorem Knows.cons {s : Scope} {types : TypeTable} (h : o.Knows s types) {position : Position} {e : Expr}
    {type : Option Ty} (here : o.node position = some e) (result : e.result s = .ok type) :
    o.Knows s ((position, type) :: types) where
  found {q e' type'} there known := by
    rw [List.lookup_cons] at known
    split at known
    next same =>
      obtain rfl := eq_of_beq same
      rw [here] at there
      obtain rfl := Option.some.inj there
      obtain rfl := Option.some.inj known
      exact result
    next => exact h.found there known
  else_ {q} outside := by
    have other : q ≠ position := by
      rintro rfl
      rw [here] at outside
      cases outside
    rw [List.lookup_cons, beq_eq_false_iff_ne.mpr other]
    exact h.else_ outside

/-- An emission from a state whose table knows the types of a tree, which it knows then still. -/
abbrev Emits (o : Outline) (s : Scope) (σ : Emitter) (m : Emission α) (x : Except CompileError β)
    (out : β → α × Emitter) : Prop :=
  Covenant.Emits (o.Knows s) (o.Knows s) σ m x out

/-! ## Inference -/

section Inference

variable {position : Position} {m : Emission (Option Ty)} {τ : Emitter} {type : Option Ty}

theorem run_infer_of_known (known : τ.types.lookup position = some type) :
    (Emission.infer position m).run τ = .ok (type, τ) := by
  simp only [Emission.infer, StateT.run_bind, StateT.run_get, pure_bind, known]
  rfl

theorem run_infer_of_new (new : τ.types.lookup position = none) : (Emission.infer position m).run τ =
    m.run { τ with code := [] } >>= fun (type, τ') =>
      .ok (type, { τ' with code := τ.code, labels := τ.labels, types := (position, type) :: τ'.types }) := by
  simp only [Emission.infer, StateT.run_bind, StateT.run_get, pure_bind, new, Emission.scratch, StateT.run_set,
    StateT.run_modify, StateT.run_pure, bind_assoc]
  rfl

variable {e : Expr} {s : Scope} {out : δ → γ × Emitter}

theorem infer_goes (here : o.node position = some e) (same : σ.scope = s)
    (h : ∀ σ, σ.scope = s → o.Emits s σ m (e.typed s none) fun r => (r.type?, σ.put r))
    (like : Like (o.Knows s) τ σ) {r : Typed} (found : e.typed s none = .ok r) :
    ∃ σ' τ', σ.Ahead r σ' ∧ (Emission.infer position m).run τ = .ok (r.type?, τ') ∧ Like (o.Knows s) τ' σ' := by
  have result : e.result s = .ok r.type? := by
    rw [Expr.result, found]
    rfl
  cases known : τ.types.lookup position with
  | some type =>
    obtain rfl : r.type? = type := Except.ok.inj (result.symm.trans (like.table.found here known))
    exact ⟨σ, τ, .inl rfl, run_infer_of_known known, like⟩
  | none =>
    obtain ⟨τ', run, like'⟩ := (h { σ with code := [] } same).goes like.emptied found
    refine ⟨σ.follow r.followed,
      { τ' with code := τ.code, labels := τ.labels, types := (position, r.type?) :: τ'.types }, .inr rfl, ?_, ?_, ?_⟩
    · rw [run_infer_of_new known, run]
      rfl
    · rw [like'.same, like.same]
      rfl
    · exact like'.table.cons here result

theorem infer_fails (here : o.node position = some e) (same : σ.scope = s)
    (h : ∀ σ, σ.scope = s → o.Emits s σ m (e.typed s none) fun r => (r.type?, σ.put r))
    (like : Like (o.Knows s) τ σ) {error : CompileError} (failed : e.typed s none = .error error) :
    (Emission.infer position m).run τ = .error error := by
  cases known : τ.types.lookup position with
  | some type =>
    have result := like.table.found here known
    rw [Expr.result, failed] at result
    cases result
  | none =>
    rw [run_infer_of_new known, (h { σ with code := [] } same).fails like.emptied failed]
    rfl

/-- The type of an expression is found without a change of the state, but references may be noted ahead. -/
theorem infer_bind {f : Option Ty → Emission γ} {y : Typed → Except CompileError δ} (here : o.node position = some e)
    (same : σ.scope = s) (h : ∀ σ, σ.scope = s → o.Emits s σ m (e.typed s none) fun r => (r.type?, σ.put r))
    (next : ∀ r, e.typed s none = .ok r → ∀ σ', σ.Ahead r σ' → o.Emits s σ' (f r.type?) (y r) out) :
    o.Emits s σ (Emission.infer position m >>= f) (e.typed s none >>= y) out where
  fails {τ error} like failed := by
    rw [StateT.run_bind]
    rcases bind_eq_error.mp failed with failed | ⟨r, found, failed⟩
    · rw [infer_fails here same h like failed]
      rfl
    · obtain ⟨σ', τ', ahead, run, like'⟩ := infer_goes here same h like found
      rw [run]
      exact (next r found σ' ahead).fails like' failed
  goes {τ d} like goes := by
    obtain ⟨r, found, goes⟩ := bind_eq_ok.mp goes
    obtain ⟨σ', τ', ahead, run, like'⟩ := infer_goes here same h like found
    rw [StateT.run_bind, run]
    exact (next r found σ' ahead).goes like' goes

theorem infer_value_bind {f : Ty → Emission γ} {y : Term × Ty → Except CompileError δ} {own : Nat}
    (here : o.node position = some e) (same : σ.scope = s)
    (h : ∀ σ, σ.scope = s → o.Emits s σ m (e.typed s none) fun r => (r.type?, σ.put r))
    (next : ∀ t type, e.typed s none = .ok (.value t type) →
      ∀ σ', σ.Ahead (.value t type) σ' → o.Emits s σ' (f type) (y (t, type)) out) :
    o.Emits s σ (Emission.value own (Emission.infer position m) >>= f)
      (e.typed s none >>= fun r => r.term own >>= y) out := by
  rw [Emission.value, bind_assoc]
  refine infer_bind here same h fun r hr σ' ahead => ?_
  cases r with
  | value t type =>
    change o.Emits s σ' (Pure.pure type >>= f) (y (t, type)) out
    rw [pure_bind]
    exact next t type hr σ' ahead
  | effect a => exact fail_bind _ _

end Inference

end Outline

end Covenant
