import Covenant.Proofs.Emitter.Values
/-!
The code of an operation is emitted as that of its term. The type of its operands is inferred before their code is
emitted, so each case goes by the operand that has a type of its own.

* `Outline.emits_operator`: the instruction for an operator;
* `Outline.emitted_ofLeft`, `Outline.emitted_ofRight`: operations by the operand that gives the type;
* `Outline.emitted_binary`: all operations.
-/

namespace Covenant

namespace Outline

open Covenant.Expr Emits

variable {o : Outline} {s : Scope} {σ : Emitter} {position : Position} {expected : Option Ty} {line : Nat}
  {left right : Expr} {op : BinaryOp}

/-! ## Operators -/

section Operators

variable {I : TypeTable → Prop} {a b : Term} {type : Ty}

theorem emits_ordered {c : Comparison} (stands : op.comparison? = some c) (strict : c ≠ .equal ∧ c ≠ .notEqual) :
    Covenant.Emits I I ((σ.term a).term b) (Emission.operator op type line)
      (if type.isNumeric || type = .string then .ok (.value (.compare c a b) .boolean)
        else CompileError.throw (.unordered type) line) fun r => (r.type?, σ.put r) := by
  simp only [Emission.operator, stands, decide_eq_false strict.1, decide_eq_false strict.2, Bool.false_or]
  split
  next => exact binary (fun _ => rfl) rfl rfl
  next => exact .fail _ _

theorem emits_arith {arith : Arith} (stands : op.arith? = some arith) (plain : ¬ (op = .add ∧ type = .string)) :
    Covenant.Emits I I ((σ.term a).term b) (Emission.operator op type line)
      (type.onNumbers op.text line fun p => .value (.arith arith p a b) type) fun r => (r.type?, σ.put r) := by
  have none : op.comparison? = none := by
    cases op <;> first | rfl | cases stands
  have other : ¬ (decide (op = .add) && decide (type = .string)) = true := by
    rwa [Bool.and_eq_true, decide_eq_true_iff, decide_eq_true_iff]
  simp only [Emission.operator, none, if_neg other, stands]
  cases type with
  | primitive p =>
    simp only [Ty.onNumbers]
    split
    next => exact binary (fun _ => rfl) rfl rfl
    next => exact .fail _ _
  | _ => exact .fail _ _

theorem emits_operator (plain : op.isLogical = false) :
    Covenant.Emits I I ((σ.term a).term b) (Emission.operator op type line) (operation op type a b line)
      fun r => (r.type?, σ.put r) := by
  cases op with
  | and | or => cases plain
  | equal | notEqual => exact binary (fun _ => rfl) rfl rfl
  | less | lessEqual | greater | greaterEqual => exact emits_ordered rfl ⟨nofun, nofun⟩
  | sub | mul | div | mod => exact emits_arith rfl (fun h => nomatch h.1)
  | add =>
    by_cases text : type = .string
    · subst text
      exact binary (fun _ => rfl) rfl rfl
    · have added : operation .add type a b line = type.onNumbers (BinaryOp.text .add) line fun p =>
          .value (.arith .add p a b) type := if_neg text
      rw [added]
      exact emits_arith rfl (fun h => text h.2)

end Operators

/-! ## Operations -/

theorem emitted_logical (logical : op.isLogical = true) (hl : o.Emitted (position ++ [0]) left)
    (hr : o.Emitted (position ++ [1]) right) : o.Emitted position (.binary op left right line) := by
  intro σ s same expected
  have holds : (op = .and || op = .or) = true := logical
  rw [Emission.expr, typed_logical logical, if_pos holds]
  refine newLabel_bind (condition_bind (hl (σ.wrote [] 1 []) s same _) fun a => emit_bind (emit_bind (emit_bind ?_)))
  refine branch_condition_bind same (fun σ same => hr σ s same _) fun b => mark_bind ?_
  cases op with
  | and | or =>
    refine value ?_
    simp only [Emitter.term, Term.code, Term.labels, Term.followed, Emitter.wrote_wrote, Emitter.labels_wrote,
      List.nil_append, List.append_nil, List.append_assoc, Nat.add_zero, Nat.add_assoc]
    rfl
  | _ => cases logical

section Plain

variable {out : Typed → Option Ty × Emitter} {type : Ty} {a : Action}

theorem emits_noValue_of_type (hl : o.Emitted (position ++ [0]) left) (same : σ.scope = s)
    (known : left.typed s none = .ok (.effect a)) :
    o.Emits s σ (Emission.operationAt position op left right line (some type))
      (CompileError.throw .noValue left.line) out := by
  rw [Emission.operationAt, Emission.operation, Emission.valueOf, bind_assoc]
  exact value_effect (hl σ s same _) (typed_effect known _)

theorem emits_noValue (here : o.node (position ++ [0]) = some left) (hl : o.Emitted (position ++ [0]) left)
    (same : σ.scope = s) (known : left.typed s none = .ok (.effect a)) :
    o.Emits s σ (Emission.literalOperandType op expected
          (Emission.infer (position ++ [0]) (Emission.expr (position ++ [0]) none left)) >>=
        Emission.operationAt position op left right line)
      (CompileError.throw .noValue left.line) out := by
  unfold Emission.literalOperandType
  cases Expr.literalType op expected with
  | some type => exact emits_noValue_of_type hl same known
  | none =>
    suffices h : o.Emits s σ (Emission.infer (position ++ [0]) (Emission.expr (position ++ [0]) none left) >>=
          Emission.operationAt position op left right line)
        (left.typed s none >>= fun _ => CompileError.throw .noValue left.line) out by
      rwa [known, ok_bind] at h
    refine infer_bind here same (fun σ same => hl σ s same none) fun r hr σ' ahead => ?_
    obtain rfl := Except.ok.inj (known.symm.trans hr)
    exact value_effect (hl σ' s (ahead.scope same) none) known

theorem emits_literalOperation (plain : op.isLogical = false) (untyped : left.isUntyped = true)
    (here : o.node (position ++ [0]) = some left) (hl : o.Emitted (position ++ [0]) left)
    (hr : o.Emitted (position ++ [1]) right) (same : σ.scope = s) :
    o.Emits s σ (Emission.literalOperandType op expected
          (Emission.infer (position ++ [0]) (Emission.expr (position ++ [0]) none left)) >>=
        Emission.operationAt position op left right line)
      (literalOperation s expected op left right line) fun r => (r.type?, σ.put r) := by
  have operate : ∀ {a type}, o.Emits s (σ.term a) (do
        Emission.valueOf type right.line line (Emission.expr (position ++ [1]) (some type) right)
        Emission.operator op type line)
      (do
        let b ← (← right.typed s (some type)).termOf type right.line line
        operation op type a b line) fun r => (r.type?, σ.put r) := fun {a type} =>
    valueOf_bind (hr (σ.term a) s same (some type)) fun _ _ => emits_operator plain
  unfold Emission.literalOperandType literalOperation
  cases Expr.literalType op expected with
  | some type =>
    rw [pure_bind, Emission.operationAt, Emission.operation, Emission.valueOf, bind_assoc]
    refine value_bind (hl σ s same (some type)) fun a own _ => ?_
    dsimp only [Option.getD_some]
    split
    next =>
      rw [pure_bind]
      exact operate
    next => exact fail_bind _ _
  | none =>
    refine infer_bind here same (fun σ same => hl σ s same none) fun r known σ' ahead => ?_
    obtain ⟨p, d, type, rfl⟩ := literal_of_untyped untyped known
    simp only [Typed.term, ok_bind, Option.getD_none, if_true]
    refine valueOf_known (hl σ' s (ahead.scope same) (some type)) (found s left known) ?_
    rw [ahead.term]
    exact operate

theorem emitted_ofLeft (plain : op.isLogical = false) (own : left.isUntyped = false)
    (hereLeft : o.node (position ++ [0]) = some left) (hereRight : o.node (position ++ [1]) = some right)
    (hl : o.Emitted (position ++ [0]) left) (hr : o.Emitted (position ++ [1]) right) :
    o.Emitted position (.binary op left right line) := by
  intro σ s same expected
  rw [Emission.expr_binary plain, typed_ofLeft plain own, Emission.operandType, Emission.ownType, own,
    if_neg Bool.false_ne_true, bind_assoc]
  refine infer_bind hereLeft same (fun σ same => hl σ s same none) fun r known σ' ahead => ?_
  cases r with
  | value a type =>
    dsimp only [Typed.type?]
    rw [pure_bind]
    refine valueOf_known (hl σ' s (ahead.scope same) (some type)) (found s left known) ?_
    rw [ahead.term]
    exact valueOf_bind (hr (σ.term a) s same (some type)) fun b _ => emits_operator plain
  | effect a =>
    dsimp only [Typed.type?]
    rw [Emission.ownType, bind_assoc]
    by_cases untyped : right.isUntyped = true
    · rw [untyped, if_pos rfl, pure_bind]
      exact emits_noValue hereLeft hl (ahead.scope same) known
    · rw [eq_false_of_ne_true untyped, if_neg Bool.false_ne_true]
      refine infer_bind hereRight (ahead.scope same) (fun σ same => hr σ s same none) fun r' _ σ'' ahead' => ?_
      have same'' := ahead'.scope (ahead.scope same)
      cases r' with
      | value b type =>
        dsimp only [Typed.type?]
        rw [pure_bind]
        exact emits_noValue_of_type hl same'' known
      | effect b => exact emits_noValue hereLeft hl same'' known

theorem emitted_ofRight (plain : op.isLogical = false) (untyped : left.isUntyped = true)
    (hereLeft : o.node (position ++ [0]) = some left) (hereRight : o.node (position ++ [1]) = some right)
    (hl : o.Emitted (position ++ [0]) left) (hr : o.Emitted (position ++ [1]) right) :
    o.Emitted position (.binary op left right line) := by
  intro σ s same expected
  rw [Emission.expr_binary plain, typed_untyped plain untyped, Emission.operandType, Emission.ownType, untyped,
    if_pos rfl, pure_bind]
  dsimp only
  rw [Emission.ownType, bind_assoc, looked]
  by_cases own : right.isUntyped = true
  · rw [own, if_pos rfl, if_pos rfl, pure_bind, ok_bind]
    exact emits_literalOperation plain untyped hereLeft hl hr same
  · rw [eq_false_of_ne_true own, if_neg Bool.false_ne_true, if_neg Bool.false_ne_true, bind_assoc]
    refine infer_bind hereRight same (fun σ same => hr σ s same none) fun r known σ' ahead => ?_
    have same' := ahead.scope same
    cases r with
    | value b type =>
      dsimp only [Typed.type?]
      rw [pure_bind, pure_bind]
      refine valueOf_bind (hl σ' s same' (some type)) fun a ha => ?_
      obtain ⟨p, d, _, literal⟩ := literal_of_untyped untyped ha
      cases literal
      refine valueOf_known (hr (σ'.term (.literal p d)) s same' (some type)) (found s right known) ?_
      rw [(ahead.of_term rfl).term]
      exact emits_operator plain
    | effect b =>
      dsimp only [Typed.type?]
      rw [pure_bind]
      -- the literals of an operation whose right operand has no value
      refine (emits_literalOperation plain untyped hereLeft hl hr same').congr fun r goes => ?_
      exact absurd goes (literalOperation_effect known)

end Plain

theorem emitted_binary (hereLeft : o.node (position ++ [0]) = some left)
    (hereRight : o.node (position ++ [1]) = some right)
    (hl : o.Emitted (position ++ [0]) left) (hr : o.Emitted (position ++ [1]) right) :
    o.Emitted position (.binary op left right line) := by
  by_cases logical : op.isLogical = true
  · exact emitted_logical logical hl hr
  · have plain := eq_false_of_ne_true logical
    by_cases untyped : left.isUntyped = true
    · exact emitted_ofRight plain untyped hereLeft hereRight hl hr
    · exact emitted_ofLeft plain (eq_false_of_ne_true untyped) hereLeft hereRight hl hr

end Outline

end Covenant
