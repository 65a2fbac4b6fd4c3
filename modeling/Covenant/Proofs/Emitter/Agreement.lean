import Covenant.Proofs.Emitter.Expressions
/-!
Inference agrees with emission, in each state whose table of types is sound.

* `Emitter.Sound`: what a table knows of an expression and its parts is what is found for them;
* `Emitter.Inferred`: a state after types of parts have been inferred, each of which leaves it sound;
* `Emitter.inference_agrees_with_emission`: the type that is found for an expression can be expected of it, and what is
  emitted for it does not depend on what has been inferred of it.
-/

namespace Covenant

namespace Expr

theorem at?_append (e : Expr) (q r : Position) : e.at? (q ++ r) = (e.at? q).bind fun part => part.at? r := by
  induction q generalizing e with
  | nil => rfl
  | cons i q ih =>
    rw [List.cons_append, at?, at?]
    cases e.parts[i]? with
    | some part => exact ih part
    | none => rfl

theorem at?_part {e part sub : Expr} {q : Position} {i : Nat} (h : e.at? q = some part)
    (hs : part.parts[i]? = some sub) : e.at? (q ++ [i]) = some sub := by
  rw [at?_append, h, Option.bind_some, at?, hs]
  rfl

end Expr

namespace Outline

/-- An expression at a place, and what was known before. -/
def ofExpr (place : Position) (e : Expr) (before : TypeTable) : Outline where
  node p := if place <+: p then e.at? (p.drop place.length) else none
  part {p part i sub} h hs := by
    split at h
    next under =>
      obtain ⟨q, rfl⟩ := under
      rw [List.drop_left] at h
      rw [List.append_assoc, if_pos (List.prefix_append _ _), List.drop_left]
      exact Expr.at?_part h hs
    next => cases h
  before := before

variable {σ τ : Emitter} {s : Scope} {place p : Position} {e part : Expr} {before types : TypeTable}

theorem node_ofExpr (place : Position) (e : Expr) (before : TypeTable) (q : Position) :
    (ofExpr place e before).node (place ++ q) = e.at? q := by
  change (if place <+: place ++ q then e.at? ((place ++ q).drop place.length) else none) = _
  rw [if_pos (List.prefix_append _ _), List.drop_left]

theorem node_ofExpr_self (place : Position) (e : Expr) (before : TypeTable) :
    (ofExpr place e before).node place = some e := by
  have here := node_ofExpr place e before []
  rwa [List.append_nil] at here

theorem node_ofExpr_eq_some (h : (ofExpr place e before).node p = some part) :
    ∃ q, p = place ++ q ∧ e.at? q = some part := by
  change (if place <+: p then e.at? (p.drop place.length) else none) = _ at h
  split at h
  next under =>
    obtain ⟨q, rfl⟩ := under
    rw [List.drop_left] at h
    exact ⟨q, rfl, h⟩
  next => cases h

end Outline

namespace Emitter

open Outline

variable {σ σ' τ : Emitter} {place : Position} {e : Expr}

/-- What is known of the types of an expression at a place, and of its parts, is what is found for them. -/
def Sound (σ : Emitter) (place : Position) (e : Expr) : Prop :=
  ∀ q part type, e.at? q = some part → σ.types.lookup (place ++ q) = some type → part.result σ.scope = .ok type

/-- Nothing is known of an expression at a place, nor of its parts. -/
def New (σ : Emitter) (place : Position) : Prop := ∀ q, σ.types.lookup (place ++ q) = none

theorem New.sound (h : σ.New place) : σ.Sound place e := by
  intro q part type _ known
  rw [h q] at known
  cases known

theorem Sound.like (h : σ.Sound place e) : Like ((ofExpr place e σ.types).Knows σ.scope) σ σ where
  same := rfl
  table := {
    found := fun here known => by
      obtain ⟨q, rfl, there⟩ := node_ofExpr_eq_some here
      exact h q _ _ there known
    else_ := fun _ => rfl }

theorem sound_of_like {s : Scope} {before : TypeTable} (same : σ.scope = s)
    (like : Like ((ofExpr place e before).Knows s) τ σ) : τ.Sound place e := by
  have scope : τ.scope = s := by rw [like.same, same]
  intro q part type there known
  rw [scope]
  exact like.table.found ((node_ofExpr place e before q).trans there) known

/-- What is emitted for a part of an expression, where the types of its parts are known, is what it turns out to be. -/
theorem emits_part {q : Position} {part : Expr} (there : e.at? q = some part) (before : TypeTable) (σ : Emitter)
    (s : Scope) (same : σ.scope = s) (expected : Option Ty) :
    (ofExpr place e before).Emits s σ (Emission.expr (place ++ q) expected part) (part.typed s expected)
      fun r => (r.type?, σ.put r) :=
  (emitted _ part (place ++ q) ((node_ofExpr place e before q).trans there)).1 σ s same expected

/-- What is emitted for an expression is what it turns out to be. -/
theorem emits_expr (place : Position) (e : Expr) (before : TypeTable) (σ : Emitter) (expected : Option Ty) :
    (ofExpr place e before).Emits σ.scope σ (Emission.expr place expected e) (e.typed σ.scope expected)
      fun r => (r.type?, σ.put r) :=
  (emitted _ e place (node_ofExpr_self place e before)).1 σ σ.scope rfl expected

/-! ## Inference before emission -/

/-- Types of an expression at a place, or of parts of it, have been inferred since a state. -/
inductive Inferred (place : Position) (e : Expr) (σ : Emitter) : Emitter → Prop
  | refl : Inferred place e σ σ
  | infer {σ₁ σ₂ : Emitter} {q : Position} {part : Expr} {type : Option Ty} (before : Inferred place e σ σ₁)
      (here : e.at? q = some part)
      (run : (Emission.infer (place ++ q) (Emission.expr (place ++ q) none part)).run σ₁ = .ok (type, σ₂)) :
      Inferred place e σ σ₂

/-- A state is a given one but for the types that are known and the references that are noted. -/
def Besides (σ' σ : Emitter) : Prop := ∃ types followed, σ' = { σ with types := types, followed := followed }

/-- The type of a part is inferred as it is found, and the state stays sound. -/
theorem Sound.infer (h : σ.Sound place e) {q : Position} {part : Expr} (there : e.at? q = some part) {r : Typed}
    (found : part.typed σ.scope none = .ok r) :
    ∃ σ', (Emission.infer (place ++ q) (Emission.expr (place ++ q) none part)).run σ = .ok (r.type?, σ') ∧
      σ'.Besides σ ∧ σ'.Sound place e := by
  have here := (node_ofExpr place e σ.types q).trans there
  obtain ⟨σ₁, τ, ahead, run, like⟩ := infer_goes here rfl
    (fun σ' same => emits_part there σ.types σ' σ.scope same none) h.like found
  refine ⟨τ, run, ?_, sound_of_like (ahead.scope rfl) like⟩
  rcases ahead with rfl | rfl
  · exact ⟨τ.types, σ₁.followed, like.same⟩
  · exact ⟨τ.types, σ.noted r.followed, like.same⟩

theorem Sound.infer_fails (h : σ.Sound place e) {q : Position} {part : Expr} (there : e.at? q = some part)
    {error : CompileError} (failed : part.typed σ.scope none = .error error) :
    (Emission.infer (place ++ q) (Emission.expr (place ++ q) none part)).run σ = .error error :=
  Outline.infer_fails ((node_ofExpr place e σ.types q).trans there) rfl
    (fun σ' same => emits_part there σ.types σ' σ.scope same none) h.like failed

theorem Inferred.besides (inferred : Inferred place e σ σ') (h : σ.Sound place e) :
    σ'.Besides σ ∧ σ'.Sound place e := by
  induction inferred with
  | refl => exact ⟨⟨σ.types, σ.followed, rfl⟩, h⟩
  | @infer σ₁ σ₂ q part type before here run ih =>
    obtain ⟨⟨types, followed, rfl⟩, sound⟩ := ih
    cases found : part.typed σ.scope none with
    | error error =>
      rw [sound.infer_fails here found] at run
      cases run
    | ok r =>
      obtain ⟨σ', run', ⟨types', followed', rfl⟩, sound'⟩ := sound.infer here found
      rw [run'] at run
      cases run
      exact ⟨⟨types', followed', rfl⟩, sound'⟩

/-! ## Agreement -/

/-- What is seen of an emission: the type, the code, how many labels are taken, and the scope. -/
def seen (run : Except CompileError (Option Ty × Emitter)) : Except CompileError (Option Ty × Code × Nat × Scope) :=
  run.map fun (type, σ) => (type, σ.code, σ.labels, σ.scope)

/-- What is emitted for an expression in a sound state is seen to be the code of what it turns out to be. -/
theorem Sound.seen_expr (h : σ.Sound place e) (expected : Option Ty) :
    seen ((Emission.expr place expected e).run σ) = (e.typed σ.scope expected).map fun r =>
      (r.type?, σ.code ++ r.code σ.labels, σ.labels + r.labels, σ.scope) := by
  have emits := emits_expr place e σ.types σ expected
  cases found : e.typed σ.scope expected with
  | error error =>
    rw [emits.fails h.like found]
    rfl
  | ok r =>
    obtain ⟨τ, run, like⟩ := emits.goes h.like found
    rw [run, like.same]
    rfl

/-- In a sound state, an expression for which a type is found when nothing is expected is emitted the same when that
type is expected; inference finds the type too and leaves all but the table and the noted references as it was; and
whatever is expected of an expression, it is emitted as what it turns out to be, also when types of it and of its parts
have been inferred before. -/
theorem inference_agrees_with_emission (sound : σ.Sound place e) :
    (∀ t after, (Emission.expr place none e).run σ = .ok (some t, after) →
      (∃ types, (Emission.expr place (some t) e).run σ = .ok (some t, { after with types := types })) ∧
      ∃ σ', (Emission.infer place (Emission.expr place none e)).run σ = .ok (some t, σ') ∧ σ'.Besides σ) ∧
    ∀ σ', Inferred place e σ σ' → σ'.Sound place e ∧ ∀ expected,
      seen ((Emission.expr place expected e).run σ') = seen ((Emission.expr place expected e).run σ) ∧
      seen ((Emission.expr place expected e).run σ) = (e.typed σ.scope expected).map fun r =>
        (r.type?, σ.code ++ r.code σ.labels, σ.labels + r.labels, σ.scope) := by
  refine ⟨fun t after run => ?_, fun σ' inferred => ?_⟩
  · have emits := fun expected => emits_expr place e σ.types σ expected
    cases found : e.typed σ.scope none with
    | error error =>
      rw [(emits none).fails sound.like found] at run
      cases run
    | ok r =>
      obtain ⟨τ, run', like⟩ := (emits none).goes sound.like found
      obtain ⟨same, rfl⟩ := Prod.mk.inj (Except.ok.inj (run'.symm.trans run))
      cases r with
      | effect a => cases same
      | value term type =>
        cases same
        obtain ⟨τ', again, like'⟩ := (emits (some t)).goes sound.like (Expr.found σ.scope e found)
        obtain ⟨σ', inferred, besides, -⟩ := sound.infer (q := []) rfl found
        rw [List.append_nil] at inferred
        refine ⟨⟨τ'.types, ?_⟩, σ', inferred, besides⟩
        rw [again, like'.same, like.same]
        rfl
  · obtain ⟨⟨types, followed, rfl⟩, sound'⟩ := inferred.besides sound
    refine ⟨sound', fun expected => ⟨?_, sound.seen_expr expected⟩⟩
    exact (sound'.seen_expr expected).trans (sound.seen_expr expected).symm

/-- A literal takes the type of an item of an array literal, which takes it from a field that is inferred first. -/
theorem sum_with_item_agrees :
    let s : Scope := ⟨[], ⟨"Counter", [("n", .primitive .u64)]⟩, none, [], [[]]⟩
    let field : Expr := .member (.this 1) "n" 1
    let e : Expr := .binary .add (.number "1" 1) (.index (.array [field, .number "2" 1] 1) (.number "0" 1) 1) 1
    ∃ after σ', (Emission.expr [] none e).run (start s) = .ok (some (.primitive .u64), after) ∧
      (∃ types, (Emission.expr [] (some (.primitive .u64)) e).run (start s) =
        .ok (some (.primitive .u64), { after with types := types })) ∧
      (Emission.infer [1, 0, 0] (Emission.expr [1, 0, 0] none field)).run (start s) =
        .ok (some (.primitive .u64), σ') ∧
      seen ((Emission.expr [] none e).run σ') = seen ((Emission.expr [] none e).run (start s)) := by
  intro s field e
  have new : (start s).New [] := fun _ => rfl
  obtain ⟨agrees, independent⟩ := inference_agrees_with_emission (e := e) new.sound
  refine ⟨_, _, rfl, (agrees _ _ rfl).1, rfl, ?_⟩
  have inferred : Inferred [] e (start s) _ := .infer (q := [1, 0, 0]) .refl rfl rfl
  exact ((independent _ inferred).2 none).1

end Emitter

end Covenant
