import Covenant.Proofs.Emitter.Statements
import Covenant.Proofs.Statement.Functions
/-!
In one pass, from a state in which nothing is known, a program is compiled to what type checking and then writing the
code gives.

* `emits_policy`, `emits_function`: what is emitted for policies and functions;
* `Program.emit_eq_compile`: what is emitted for a program.
-/

namespace Covenant

variable {I J K : TypeTable → Prop} {σ : Emitter} {α β γ δ : Type}

open Emits Emitter

/-! ## Policies -/

mutual
theorem emits_policy : ∀ (p : Policy) (σ : Emitter),
    Emits I I σ (Emission.policy p) (.ok ()) fun _ => ((), σ.wrote (p.code σ.labels) p.labels p.followed)
  | .anyone, _ | .denied, _ => emit rfl
  | .field _, σ | .key _, σ => by
    rw [Emission.policy]
    refine emit_bind (emit_bind (emit ?_))
    simp only [wrote_wrote]
    rfl
  | .delegate holder contract delegateField, σ => by
    rw [Emission.policy]
    refine follow_bind (newLabel_bind (newLabel_bind (emit_bind (emit_bind (emit_bind (emit_bind (emit_bind ?_)))))))
    refine emit_bind (emit_bind (emit_bind (emit_bind (mark_bind (emit_bind (emit_bind (emit_bind (mark ?_))))))))
    simp only [wrote_wrote]
    rfl
  | .anyOf members, σ => by
    rw [Emission.policy]
    refine newLabel_bind (newLabel_bind ((emits_policies members _ _).done_bind ?_))
    refine emit_bind (emit_bind (mark_bind (emit_bind (mark ?_))))
    simp only [wrote_wrote, labels_wrote, Policy.code, Policy.labels, Policy.followed, List.nil_append, List.append_nil,
      List.append_assoc, Nat.add_zero]
    rfl

theorem emits_policies : ∀ (members : List Policy) (satisfied : String) (σ : Emitter),
    Emits I I σ (Emission.policies satisfied members) (.ok ()) fun _ =>
      ((), σ.wrote (Policy.codeOfAll σ.labels satisfied members) (Policy.labelsOfAll members) [])
  | [], _, _ => .pure (congrArg ((), ·) wrote_nil)
  | first :: rest, satisfied, σ => by
    rw [Emission.policies_cons]
    have later : Emits I I (σ.wrote (first.code σ.labels) first.labels []) (do
          Emission.emit (.jumpIfTrue satisfied)
          Emission.policies satisfied rest)
        (.ok ()) fun _ => ((), σ.wrote (Policy.codeOfAll σ.labels satisfied (first :: rest))
          (Policy.labelsOfAll (first :: rest)) []) := by
      refine emit_bind ((emits_policies rest satisfied _).congr fun _ _ => ?_)
      simp only [wrote_wrote, labels_wrote, Policy.codeOfAll, Policy.labelsOfAll, Nat.add_zero, List.append_nil]
    rw [← wrote_branch _ _ first.followed] at later
    exact (emits_policy first { σ with branches := σ.branches + 1 }).branch_bind (y := fun _ => .ok ()) fun _ _ => later
end

/-! ## Functions -/

theorem Policy.eq_anyone {p : Policy} (h : p.isAnyone = true) : p = .anyone := by
  cases p <;> first | rfl | cases h

namespace CheckedFunction

variable (f : CheckedFunction) {scope s : Scope}

theorem emits_guard : Emits I I (start scope) (Emission.guard f.isConstructor f.policy) (.ok ()) fun _ =>
    ((), (start scope).wrote f.guard f.guardLabels (if f.isConstructor then [] else f.policy.followed)) := by
  unfold Emission.guard guard guardLabels
  by_cases unguarded : (f.isConstructor || f.policy.isAnyone) = true
  · rw [if_pos unguarded, if_pos unguarded, if_pos unguarded]
    have none : (if f.isConstructor then [] else f.policy.followed) = [] := by
      rcases Bool.or_eq_true _ _ ▸ unguarded with constructor | anyone
      · rw [if_pos constructor]
      · rw [Policy.eq_anyone anyone]
        exact ite_self _
    rw [none]
    exact .pure (congrArg ((), ·) wrote_nil.symm)
  · rw [if_neg unguarded, if_neg unguarded, if_neg unguarded]
    have declared : ¬ f.isConstructor = true := fun constructor => unguarded (by rw [constructor, Bool.true_or])
    rw [if_neg declared]
    refine newLabel_bind ((emits_policy f.policy _).done_bind (emit_bind (emit_bind (mark ?_))))
    simp only [wrote_wrote, labels_wrote, List.nil_append, List.append_nil, List.append_assoc, Nat.add_zero]
    rfl

theorem emits_ending {b : β} {out : β → Unit × Emitter} (same : σ.wrote f.ending 0 [] = (out b).2) :
    Emits I I σ (Emission.ending f.name f.result) (.ok b) out := by
  unfold Emission.ending
  unfold ending at same
  cases result : f.result with
  | none =>
    rw [result] at same
    exact emit same
  | some type =>
    rw [result] at same
    refine emit_bind (emit ?_)
    rw [wrote_wrote]
    exact same

end CheckedFunction

/-- What is emitted for a function, when no label is taken and no type is known, is the code of what its body turns out
to be, behind the check of the caller. -/
theorem emits_function (declaration : FunctionDecl) (p : Policy) (scope : Scope) (parameters : List (String × Ty)) :
    Emits (Unknown fun _ => True) (fun _ => True) (start scope) (Emission.function declaration p)
      (declaration.body.typed scope) fun (a, s) =>
        let f : CheckedFunction :=
          ⟨declaration.name, declaration.isConstructor, parameters, scope.result, p, a, s.slots⟩
        ((), (start scope).did f.code (f.guardLabels + a.labels)
          ((if f.isConstructor then [] else p.followed) ++ a.followed) a.mayLeave s) := by
  -- the guard and the ending do not depend on the body
  let f : CheckedFunction :=
    ⟨declaration.name, declaration.isConstructor, parameters, scope.result, p, .sequence [], []⟩
  rw [Emission.function, ← bind_pure (declaration.body.typed scope)]
  refine get_bind fun types => f.emits_guard.done_bind ?_
  have body := (Stmt.emitted declaration.body [] ((start scope).wrote f.guard f.guardLabels
    (if f.isConstructor then [] else p.followed))) (fun _ => True) fun _ => trivial
  refine (body.imp (fun _ unknown => unknown) fun _ _ => trivial).bind fun (a, s) _ => f.emits_ending ?_
  have none : (start scope).labels = 0 := rfl
  rw [acted_outside rfl]
  simp only [wrote_eq, did_did, labels_did, scope_did, none, Nat.zero_add, Nat.add_zero, List.append_nil, Bool.false_or,
    Bool.or_false, Bool.false_eq_true, if_false, ite_self]
  rfl

namespace Schema

theorem emitReadAuth_eq (schema : Schema) (record : RecordSchema) (readPolicy : Policy) :
    schema.emitReadAuth record readPolicy = .ok (schema.compileReadAuth record readPolicy) := by
  let σ := start ⟨schema, record.type, some .boolean, [], [[]]⟩
  have emits : Emits (fun _ => True) (fun _ => True) σ (Emission.readAuth readPolicy) (.ok ()) fun _ =>
      ((), (σ.wrote (readPolicy.code 0) readPolicy.labels readPolicy.followed).wrote [.op .leaveValue] 0 []) :=
    (emits_policy readPolicy σ).done_bind (emit rfl)
  have like : Like (fun _ => True) σ σ := ⟨rfl, trivial⟩
  obtain ⟨τ, run, like'⟩ := emits.goes like rfl
  have noted : σ.noted readPolicy.followed = readPolicy.followed := by
    cases readPolicy <;> rfl
  rw [emitReadAuth, run, like'.same, wrote_wrote, List.append_nil, wrote, noted]
  rfl

/-- A function is compiled in one pass to what it is after type checking, or fails as that. -/
theorem emitFunction_eq (schema : Schema) (record : RecordSchema) (readPolicy : Policy) (function : FunctionDecl) :
    schema.emitFunction record readPolicy function = schema.compileFunction record readPolicy function := by
  rw [emitFunction, compileFunction, check]
  simp only [bind_assoc]
  refine bind_congr fun parameters => bind_congr fun result => bind_congr fun policy => ?_
  cases declared : declareAll ⟨schema, record.type, result, [], [[]]⟩ parameters with
  | error error => rfl
  | ok scope =>
    obtain rfl : scope.result = result := (scope_of_declareAll declared).2
    rw [ok_bind, ok_bind]
    have emits := emits_function function policy scope parameters
    have like : Like (Unknown fun _ => True) (start scope) (start scope) := ⟨rfl, fun _ _ => rfl⟩
    cases typed : function.body.typed scope with
    | error error =>
      rw [emits.fails like typed]
      rfl
    | ok r =>
      obtain ⟨τ, run, like'⟩ := emits.goes like typed
      rw [run, like'.same]
      rfl

end Schema

/-- In one pass a program is compiled to what it is after type checking, or fails as that. -/
theorem Program.emit_eq_compile (program : Program) (contract function : String) :
    program.emit contract function = program.compile contract function := by
  rw [emit, compile]
  simp only [Schema.emitReadAuth_eq, Schema.emitFunction_eq]
  rfl

end Covenant
