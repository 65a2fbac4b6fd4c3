import Covenant.Proofs.Emitter.Agreement
import Covenant.Proofs.Emitter.Program
import Covenant.Proofs.Statement.Runs
/-!
The code of statements is emitted as that of the actions which they turn out to be. When an expression of a function
comes to be emitted nothing is known of its types, so the table is sound for it.

* `Emitter.did`, `Emitter.acted`: the state after statements;
* `EmitsAt`: what is emitted at a position of which nothing is known, and types become known only there;
* `Stmt.emitted`: what is emitted for each statement.
-/

namespace Covenant

/-! ## The state after statements -/

namespace Emitter

variable {σ : Emitter} {c c' : Code} {n n' : Nat} {f f' : List String} {l l' : Bool} {s s' : Scope} {a b : Action}

/-- Code has been emitted that takes labels, follows references and may leave the function, and names mean now what a
scope says. -/
def did (σ : Emitter) (code : Code) (labels : Nat) (followed : List String) (left : Bool) (scope : Scope) : Emitter :=
  { σ.wrote code labels followed with leftEarly := σ.leftEarly || left, scope := scope }

theorem wrote_eq : σ.wrote c n f = σ.did c n f false σ.scope := by
  simp only [did, wrote, Bool.or_false]

theorem within_eq : σ.within s = σ.did [] 0 [] false s := by
  simp only [within, did, wrote, noted_nil, List.append_nil, Nat.add_zero, Bool.or_false]

/-- References are not noted after the function may have been left. -/
theorem noted_did : (σ.did c n f l s).noted f' = σ.noted (f ++ if l then [] else f') := by
  cases l with
  | false =>
    rw [if_neg Bool.false_ne_true, noted_append, did, Bool.or_false]
    rfl
  | true =>
    have left : ¬ (σ.branches = 0 ∧ (σ.leftEarly || true) = false) := by
      rw [Bool.or_true]
      exact fun h => nomatch h.2
    rw [if_pos rfl, List.append_nil]
    exact if_neg left

@[simp] theorem did_did : (σ.did c n f l s).did c' n' f' l' s' =
    σ.did (c ++ c') (n + n') (f ++ if l then [] else f') (l || l') s' := by
  rw [did, wrote, noted_did]
  simp only [did, wrote, List.append_assoc, Nat.add_assoc, Bool.or_assoc]

@[simp] theorem labels_did : (σ.did c n f l s).labels = σ.labels + n := rfl

@[simp] theorem scope_did : (σ.did c n f l s).scope = s := rfl

/-- In a branch no reference is noted. -/
theorem did_of_branches (inside : σ.branches ≠ 0) : σ.did c n f l s = σ.did c n f' l s := by
  have closed : ¬ (σ.branches = 0 ∧ σ.leftEarly = false) := fun h => inside h.1
  simp only [did, wrote, noted, if_neg closed]

/-- The code of an action has been emitted. -/
def acted (σ : Emitter) (a : Action) (scope : Scope) : Emitter :=
  σ.did (a.code σ.labels) a.labels a.followed (if σ.branches = 0 then a.mayLeave else a.leaves) scope

theorem acted_outside (outside : σ.branches = 0) :
    σ.acted a s = σ.did (a.code σ.labels) a.labels a.followed a.mayLeave s := by
  rw [acted, if_pos outside]

theorem acted_inside (inside : σ.branches ≠ 0) :
    σ.acted a s = σ.did (a.code σ.labels) a.labels a.followed a.leaves s := by
  rw [acted, if_neg inside]

/-- An action that never leaves the function has been emitted. -/
theorem acted_of_stays (always : a.leaves = false) (sometimes : a.mayLeave = false) :
    σ.acted a s = σ.did (a.code σ.labels) a.labels a.followed false s := by
  rw [acted, always, sometimes, ite_self]

/-- An action that leaves the function only in branches has been emitted. -/
theorem acted_of_same (same : a.mayLeave = a.leaves) :
    σ.acted a s = σ.did (a.code σ.labels) a.labels a.followed a.leaves s := by
  rw [acted, same, ite_self]

theorem put_effect (always : a.leaves = false) (sometimes : a.mayLeave = false) :
    σ.put (.effect a) = σ.acted a σ.scope := by
  rw [acted_of_stays always sometimes]
  exact wrote_eq

theorem acted_nil : σ.acted (.sequence []) σ.scope = σ := by
  rw [acted_of_stays rfl rfl, ← wrote_eq]
  exact wrote_nil

theorem acted_cons (actions : List Action) :
    (σ.acted a s).acted (.sequence actions) s' = σ.acted (.sequence (a :: actions)) s' := by
  by_cases outside : σ.branches = 0
  · rw [acted_outside outside, acted_outside outside, acted_outside (show (did ..).branches = 0 from outside), did_did]
    rfl
  · rw [acted_inside outside, acted_inside outside, acted_inside (show (did ..).branches ≠ 0 from outside), did_did]
    exact did_of_branches outside

/-- What a statement emits that leaves the function. -/
theorem wrote_departing : σ.departing.wrote c n f = σ.did c n f (σ.branches != 0) σ.scope := by
  by_cases outside : σ.branches = 0
  · have stays : (σ.branches != 0) = false := by rw [outside]; rfl
    rw [departing, stays, ← wrote_eq, Bool.or_false]
  · have noted : ∀ σ' : Emitter, σ'.branches = σ.branches → σ'.noted f = σ'.followed := by
      intro σ' same
      exact if_neg fun h => outside (same ▸ h.1)
    rw [did, wrote, wrote, noted σ rfl, noted σ.departing rfl]
    rfl

theorem acted_leave (given : Option Term) : σ.acted (.leave given) s =
    σ.did (Action.code σ.labels (.leave given)) (Action.labels (.leave given)) (Action.followed (.leave given))
      (σ.branches != 0) s := by
  have left : (if σ.branches = 0 then Action.mayLeave (.leave given) else Action.leaves (.leave given)) =
      (σ.branches != 0) := by
    by_cases outside : σ.branches = 0
    · rw [if_pos outside, outside]
      rfl
    · rw [if_neg outside]
      exact (bne_iff_ne.mpr outside).symm
  rw [acted, left]

/-- What a branch emits notes no reference, and may have left the function when it is closed. -/
theorem acted_branch : { { σ with branches := σ.branches + 1 }.acted a s with branches := σ.branches } =
    σ.did (a.code σ.labels) a.labels [] a.leaves s := by
  have inside : ¬ σ.branches + 1 = 0 := Nat.succ_ne_zero _
  simp only [acted, did, wrote, noted, inside, if_false, false_and, List.foldl_nil, ite_self]

end Emitter

/-! ## Positions of which nothing is known -/

/-- Nothing is known of the types at the positions of a region. -/
def Unknown (region : Position → Prop) (types : TypeTable) : Prop := ∀ p, region p → types.lookup p = none

/-- A region without what stands at a position. -/
def Beyond (region : Position → Prop) (position p : Position) : Prop := region p ∧ ¬ position <+: p

/-- A region without the first parts of what stands at a position. -/
def Rest (region : Position → Prop) (position : Position) (i : Nat) (p : Position) : Prop :=
  region p ∧ ∀ k < i, ¬ position ++ [k] <+: p

variable {I J : TypeTable → Prop} {σ : Emitter} {α β γ δ : Type} {m : Emission α} {x : Except CompileError β}
  {out : β → α × Emitter} {region : Position → Prop} {position : Position} {i n : Nat}

theorem Rest.part (covers : ∀ q, region (position ++ q)) (q : Position) :
    Rest region position i (position ++ [i] ++ q) := by
  refine ⟨List.append_assoc position [i] q ▸ covers _, fun k less under => ?_⟩
  rw [List.append_assoc, List.prefix_append_right_inj] at under
  obtain ⟨r, same⟩ := under
  exact Nat.ne_of_lt less (List.cons.inj same).1

theorem Rest.succ {p : Position} (h : Rest region position (i + 1) p) :
    Beyond (Rest region position i) (position ++ [i]) p :=
  ⟨⟨h.1, fun k less => h.2 k (Nat.lt_succ_of_lt less)⟩, h.2 i (Nat.lt_succ_self i)⟩

theorem Beyond.rest {p : Position} (h : Beyond region position p) (n : Nat) : Rest region position n p :=
  ⟨h.1, fun k _ under => h.2 ((List.prefix_append position [k]).trans under)⟩

/-- What is emitted for what stands at a position of which nothing is known is what a computation gives, and nothing is
known afterwards of other positions of which nothing was known. -/
def EmitsAt (position : Position) (σ : Emitter) (m : Emission α) (x : Except CompileError β) (out : β → α × Emitter) :
    Prop :=
  ∀ region : Position → Prop, (∀ q, region (position ++ q)) →
    Emits (Unknown region) (Unknown (Beyond region position)) σ m x out

theorem EmitsAt.part (h : EmitsAt (position ++ [i]) σ m x out) (covers : ∀ q, region (position ++ q)) :
    Emits (Unknown (Rest region position i)) (Unknown (Rest region position (i + 1))) σ m x out :=
  (h _ (Rest.part covers)).imp (fun _ unknown => unknown) fun _ unknown p left => unknown p left.succ

/-- What is emitted for the parts of what stands at a position, one after the other. -/
theorem EmitsAt.of_parts (n : Nat) (h : ∀ region : Position → Prop, (∀ q, region (position ++ q)) →
    Emits (Unknown (Rest region position 0)) (Unknown (Rest region position n)) σ m x out) :
    EmitsAt position σ m x out :=
  fun region covers => (h region covers).imp (fun _ unknown p left => unknown p left.1)
    fun _ unknown p (beyond : Beyond region position p) => unknown p (beyond.rest n)

/-- In a state in which nothing is known of what stands at a position, the table of types is sound for it. -/
theorem Unknown.sound (unknown : Unknown region σ.types) (covers : ∀ q, region (position ++ q)) (e : Expr) :
    σ.Sound position e :=
  Emitter.New.sound fun q => unknown _ (covers q)

open Outline in
/-- What is emitted for an expression where the table is sound is emitted where nothing is known. -/
theorem EmitsAt.of_outline {e : Expr} (h : ∀ before, (ofExpr position e before).Emits σ.scope σ m x out) :
    EmitsAt position σ m x out := by
  intro region covers
  have sound : ∀ {τ}, Like (Unknown region) τ σ → Like ((ofExpr position e τ.types).Knows σ.scope) τ σ := by
    intro τ like
    have scope : τ.scope = σ.scope := by rw [like.same]
    exact ⟨like.same, scope ▸ (like.table.sound covers e).like.table⟩
  constructor
  · intro τ error like failed
    exact (h τ.types).fails (sound like) failed
  · intro τ b like goes
    obtain ⟨τ', run, like'⟩ := (h τ.types).goes (sound like) goes
    refine ⟨τ', run, like'.same, fun p beyond => ?_⟩
    have outside : (ofExpr position e τ.types).node p = none := if_neg beyond.2
    rw [like'.table.else_ outside]
    exact like.table p beyond.1

theorem emitsAt_expr (position : Position) (e : Expr) (σ : Emitter) (expected : Option Ty) :
    EmitsAt position σ (Emission.expr position expected e) (e.typed σ.scope expected) fun r => (r.type?, σ.put r) :=
  .of_outline fun before => Emitter.emits_expr position e before σ expected

/-! ## Statements -/

namespace Stmt

open Emits Emitter

/-- The code of a statement at a position is that of the action which it turns out to be. -/
def Emitted (position : Position) (stmt : Stmt) : Prop :=
  ∀ σ, EmitsAt position σ (Emission.statement position stmt) (stmt.typed σ.scope) fun r => ((), σ.acted r.1 r.2)

variable {name : String} {type : Ty} {line : Nat} {given : Expr}

theorem emits_declare {t : Term} : Emits I I (σ.term t) (Emission.declare name type line)
    (σ.scope.declare name type line >>= fun (slot, s) => pure (Action.assign (.slot slot) [] t, s))
    fun r => ((), σ.acted r.1 r.2) := by
  refine get_bind fun types => lift_bind fun (slot, s) _ => modify_bind (fun _ => rfl) (emit ?_)
  rw [acted_of_stays rfl rfl]
  simp only [term, wrote_eq, within_eq, did_did, Action.code, Action.labels, Action.followed, Term.codeAlong,
    Term.labelsAlong, Term.followedAlong, List.append_nil, Nat.add_zero, Bool.false_or, Bool.false_eq_true, if_false,
    scope_did]
  rfl

theorem emitted_declare (written : Option TypeExpr) : Emitted position (.declare name written given line) := by
  refine fun σ => .of_parts 1 fun region covers => ?_
  cases written with
  | some written =>
    rw [Emission.statement, typed]
    refine get_bind fun types => lift_bind fun type _ => ?_
    exact valueOf_bind ((emitsAt_expr _ given σ (some type)).part covers) fun t _ => emits_declare
  | none =>
    rw [Emission.statement, typed]
    exact value_bind ((emitsAt_expr _ given σ none).part covers) fun t type _ => emits_declare

/-! ## Assignments -/

/-- What an assignment stores into its target. -/
def updated (s : Scope) (op : AssignOp) (given : Expr) (line : Nat) (target : Expr.Target) :
    Except CompileError (List PathStep × Term) := do
  let operand ← (← given.typed s (some target.type)).termOf target.type given.line line
  return ([], ← combined op target.type target.read operand line)

theorem typed_assign {s : Scope} {target : Expr} {op : AssignOp} : typed s (.assign target op given line) = (do
    let a ← target.targeted s line >>= Expr.Target.assigned (updated s op given line)
    return (a, s)) := by
  rw [typed, bind_assoc]
  refine bind_congr fun target => ?_
  simp only [Expr.Target.assigned, updated, bind_assoc, pure_bind, List.append_nil]

theorem emits_combine {op : AssignOp} {arith : Arith} {old operand : Term}
    (computes : combined op type old operand line = if op = .add ∧ type = .string then .ok (.join old operand)
      else type.onNumbers op.text line fun p => .arith arith p old operand) :
    Emits I I ((σ.term old).term operand) (Emission.combine op arith type line)
      (combined op type old operand line) fun t => ((), σ.term t) := by
  rw [computes]
  unfold Emission.combine
  by_cases text : op = .add ∧ type = .string
  · obtain ⟨rfl, rfl⟩ := text
    refine emit ?_
    exact term_operator (fun _ => rfl) rfl rfl
  · have other : ¬ (decide (op = .add) && decide (type = .string)) = true := by
      rwa [Bool.and_eq_true, decide_eq_true_iff, decide_eq_true_iff]
    rw [if_neg text, if_neg other]
    cases type with
    | primitive p =>
      simp only [Ty.onNumbers]
      split
      next =>
        refine emit ?_
        exact term_operator (fun _ => rfl) rfl rfl
      next => exact .fail _ _
    | _ => exact .fail _ _

theorem emits_assigned {s : Scope} {o : Outline} {target : Expr} {op : AssignOp} {whole : Expr.Target}
    (same : σ.scope = s)
    (known : ∀ expected, target.typed s expected = .ok (.value whole.read whole.type))
    (ht : o.Emitted (position ++ [0]) target) (hg : o.Emitted (position ++ [1]) given) :
    o.Emits s σ (Emission.assigned target op given line (fun type => Emission.expr (position ++ [0]) type target)
        (fun type => Emission.expr (position ++ [1]) type given) whole.type)
      (updated s op given line whole) fun v => ((), σ.along whole.read v.2 v.1) := by
  have compound : ∀ arith, (∀ operand, combined op whole.type whole.read operand line =
        if op = .add ∧ whole.type = .string then .ok (.join whole.read operand)
        else whole.type.onNumbers op.text line fun p => .arith arith p whole.read operand) →
      o.Emits s σ (do
          let _ ← Emission.value target.line (Emission.expr (position ++ [0]) (some whole.type) target)
          Emission.valueOf whole.type given.line line (Emission.expr (position ++ [1]) (some whole.type) given)
          Emission.combine op arith whole.type line)
        (updated s op given line whole) fun v => ((), σ.along whole.read v.2 v.1) := by
    intro arith computes
    refine value_known (ht σ s same _) (known _) (valueOf_bind (hg (σ.term whole.read) s same _) fun operand _ => ?_)
    exact (emits_combine (computes operand)).map fun t => rfl
  cases op with
  | set =>
    have only : o.Emits s σ (Emission.assigned target .set given line
        (fun type => Emission.expr (position ++ [0]) type target)
        (fun type => Emission.expr (position ++ [1]) type given) whole.type >>= Pure.pure)
        (updated s .set given line whole) fun v => ((), σ.along whole.read v.2 v.1) :=
      valueOf_bind (hg σ s same _) fun operand _ => .pure rfl
    rwa [bind_pure] at only
  | add =>
    refine compound .add fun operand => ?_
    simp only [combined, true_and]
    rfl
  | sub =>
    refine compound .sub fun operand => (if_neg ?_).symm
    rintro ⟨added, -⟩
    cases added

theorem emitted_assign {target : Expr} {op : AssignOp} : Emitted position (.assign target op given line) := by
  intro σ
  -- target and operand as parts of one expression, since a compound assignment reads its target again
  refine .of_outline (e := .array [target, given] 0) fun before => ?_
  have nodes := Outline.node_ofExpr position (.array [target, given] 0) before
  obtain ⟨ht, stored⟩ := Outline.emitted _ target _ (nodes [0])
  have hg := (Outline.emitted _ given _ (nodes [1])).1
  rw [Emission.statement, typed_assign]
  have assigned := stored σ _ rfl line _ (updated σ.scope op given line) fun whole hw σ' same =>
    emits_assigned same (Expr.typed_of_targeted hw) ht hg
  refine (assigned.congr fun a goes => ?_).map fun a => rfl
  obtain ⟨whole, -, goes⟩ := bind_eq_ok.mp goes
  obtain ⟨v, -, goes⟩ := bind_eq_ok.mp goes
  obtain rfl := pure_eq_ok.mp goes
  rw [put_effect rfl rfl]

/-! ## Branches -/

variable {s : Scope} {test : Expr} {yes no body : Stmt}

/-- A statement that is not always reached. -/
theorem branch_bind {f : Unit → Emission γ} {y : Action × Scope → Except CompileError δ} {out' : δ → γ × Emitter}
    {stmt : Stmt} (h : Emitted (position ++ [i]) stmt) (covers : ∀ q, region (position ++ q)) (same : σ.scope = s)
    (next : ∀ a s', Emits (Unknown (Rest region position (i + 1))) J (σ.did (a.code σ.labels) a.labels [] a.leaves s')
      (f ()) (y (a, s')) out') :
    Emits (Unknown (Rest region position i)) J σ
      (Emission.branch (Emission.statement (position ++ [i]) stmt) >>= f) (stmt.typed s >>= y) out' := by
  subst same
  refine ((h { σ with branches := σ.branches + 1 }).part covers).branch_bind fun (a, s') _ => ?_
  have back := next a s'
  rw [← acted_branch] at back
  exact back

theorem emitted_ifThen (hy : Emitted (position ++ [1]) yes) : Emitted position (.ifThen test yes line) := by
  refine fun σ => .of_parts 2 fun region covers => ?_
  rw [Emission.statement, typed]
  have tested := fun σ => (emitsAt_expr (position ++ [0]) test σ (some .boolean)).part covers
  refine newLabel_bind (condition_bind (tested _) fun t => emit_bind ?_)
  refine branch_bind hy covers rfl fun a s => mark ?_
  rw [acted_of_same rfl]
  simp only [term, wrote_eq, did_did, labels_did, scope_did, Action.code, Action.labels, Action.followed, Action.leaves,
    List.nil_append, List.append_nil, List.append_assoc, List.cons_append, Nat.add_zero, Nat.add_assoc, Bool.false_or,
    Bool.or_false, Bool.false_eq_true, if_false, ite_self]

theorem emitted_ifElse (hy : Emitted (position ++ [1]) yes) (hn : Emitted (position ++ [2]) no) :
    Emitted position (.ifElse test yes no line) := by
  refine fun σ => .of_parts 3 fun region covers => ?_
  rw [Emission.statement, typed]
  have tested := fun σ => (emitsAt_expr (position ++ [0]) test σ (some .boolean)).part covers
  refine newLabel_bind (condition_bind (tested _) fun t => emit_bind ?_)
  refine branch_bind hy covers rfl fun a s => newLabel_bind (emit_bind (mark_bind ?_))
  refine branch_bind hn covers rfl fun b s' => mark ?_
  rw [acted_of_same rfl]
  simp only [term, wrote_eq, did_did, labels_did, scope_did, Action.code, Action.labels, Action.followed, Action.leaves,
    List.nil_append, List.append_nil, List.append_assoc, List.cons_append, Nat.add_zero, Nat.add_assoc, Bool.false_or,
    Bool.or_false, Bool.false_eq_true, if_false, ite_self]
  congr 1
  omega

theorem emitted_loop (hb : Emitted (position ++ [1]) body) : Emitted position (.loop test body line) := by
  refine fun σ => .of_parts 2 fun region covers => ?_
  rw [Emission.statement, typed]
  have tested := fun σ => (emitsAt_expr (position ++ [0]) test σ (some .boolean)).part covers
  refine newLabel_bind (newLabel_bind (mark_bind (condition_bind (tested _) fun t => emit_bind ?_)))
  refine branch_bind hb covers rfl fun a s => emit_bind (mark ?_)
  rw [acted_of_same rfl]
  have two : ∀ n, 1 + (1 + n) = 2 + n := fun n => (Nat.add_assoc 1 1 n).symm
  simp only [term, wrote_eq, did_did, labels_did, scope_did, Action.code, Action.labels, Action.followed, Action.leaves,
    List.nil_append, List.append_nil, List.append_assoc, List.cons_append, Nat.add_zero, Nat.add_assoc, Bool.false_or,
    Bool.or_false, Bool.false_eq_true, if_false, ite_self, two]

/-! ## Other statements -/

theorem emitted_leave (given : Option Expr) : Emitted position (.leave given line) := by
  intro σ
  rw [Emission.statement, typed, Emission.leave]
  cases given with
  | none =>
    refine .of_parts 0 fun region covers => modify_bind (fun _ => rfl) (get_bind fun types => ?_)
    have scope : σ.departing.scope = σ.scope := rfl
    simp only [scope]
    cases result : σ.scope.result with
    | none =>
      simp only [returned, result]
      refine emit ?_
      rw [wrote_departing, acted_leave]
      rfl
    | some type =>
      simp only [returned, result]
      exact .fail _ _
  | some e =>
    refine .of_parts 1 fun region covers => modify_bind (fun _ => rfl) (get_bind fun types => ?_)
    have scope : σ.departing.scope = σ.scope := rfl
    simp only [scope]
    cases result : σ.scope.result with
    | none =>
      simp only [returned, result]
      exact .fail _ _
    | some type =>
      simp only [returned, result, bind_assoc, pure_bind]
      refine valueOf_bind ((emitsAt_expr _ e σ.departing (some type)).part covers) fun t _ => emit ?_
      rw [term, wrote_departing, acted_leave, wrote_eq, did_did]
      simp only [Action.code, Action.labels, Action.followed, ite_self, List.append_nil, Nat.add_zero, Bool.or_false]
      rfl

theorem emitted_evaluate : Emitted position (.evaluate given line) := by
  refine fun σ => .of_parts 1 fun region covers => ?_
  rw [Emission.statement, typed]
  refine ((emitsAt_expr _ given σ none).part covers).bind fun r hr => ?_
  cases r with
  | value t type =>
    refine emit ?_
    rw [acted_of_same rfl]
    simp only [put, wrote_eq, did_did, Typed.code, Typed.labels, Typed.followed, Action.code, Action.labels,
      Action.followed, List.append_nil, Nat.add_zero, scope_did, Bool.or_false, Bool.false_eq_true, if_false]
    rfl
  | effect a =>
    refine .pure (congrArg ((), ·) ?_)
    cases Expr.acts_of_typed hr with
    | push _ _ _ => exact (put_effect rfl rfl).symm
    | error _ => exact (put_effect rfl rfl).symm

mutual
theorem tail_after (s : Scope) : ∀ stmt : Stmt, (after s stmt).blocks.tail = s.blocks.tail
  | .block _ _ | .declare _ _ _ _ | .assign _ _ _ _ | .leave _ _ | .evaluate _ _ => rfl
  | .ifThen _ yes _ => tail_after s yes
  | .ifElse _ yes no _ => (tail_after (after s yes) no).trans (tail_after s yes)
  | .loop _ body _ => tail_after s body

theorem tail_afterAll (s : Scope) : ∀ stmts : List Stmt, (afterAll s stmts).blocks.tail = s.blocks.tail
  | [] => rfl
  | first :: rest => (tail_afterAll (after s first) rest).trans (tail_after s first)
end

/-- After the statements of a block, the names of the blocks around it mean what they did. -/
theorem outer_of_typedAll {s' : Scope} {body : List Stmt} {actions : List Action}
    (h : typedAll s.inner body = .ok (actions, s')) : s'.outer = { s' with blocks := s.blocks } := by
  obtain rfl := (is_typedAll body h).1
  rw [Scope.outer, tail_afterAll]
  rfl

theorem emits_statements {body : List Stmt} (each : ∀ k stmt, body[k]? = some stmt → Emitted (position ++ [i + k]) stmt)
    (covers : ∀ q, region (position ++ q)) (same : σ.scope = s) :
    Emits (Unknown (Rest region position i)) (Unknown (Rest region position (i + body.length))) σ
      (Emission.statements position i body) (typedAll s body) fun r => ((), σ.acted (.sequence r.1) r.2) := by
  induction body generalizing i σ s with
  | nil =>
    subst same
    exact .pure (congrArg ((), ·) acted_nil)
  | cons first rest ih =>
    subst same
    rw [Emission.statements_cons, typedAll]
    refine ((each 0 first rfl σ).part covers).bind fun (a, s) _ => ?_
    have later := ih (i := i + 1) (σ := σ.acted a s) (s := s) (fun k stmt h => by
      rw [Nat.add_assoc, Nat.add_comm 1 k]
      exact each (k + 1) stmt h) rfl
    rw [List.length_cons, Nat.add_comm rest.length 1, ← Nat.add_assoc]
    exact later.map fun (actions, s') => congrArg ((), ·) (acted_cons actions).symm

theorem emitted_block {body : List Stmt} (each : ∀ k stmt, body[k]? = some stmt → Emitted (position ++ [k]) stmt) :
    Emitted position (.block body line) := by
  refine fun σ => .of_parts body.length fun region covers => ?_
  rw [Emission.statement, typed]
  refine modify_bind (fun _ => rfl) ?_
  have inside := emits_statements (σ := σ.within σ.scope.inner) (i := 0)
    (by simpa only [Nat.zero_add] using each) covers rfl
  rw [Nat.zero_add] at inside
  refine inside.bind fun (actions, s) closed => change (fun _ => rfl) ?_
  rw [← outer_of_typedAll closed]
  rfl

mutual
/-- The code of each statement is emitted as that of the action which it turns out to be. -/
theorem emitted : ∀ (stmt : Stmt) (position : Position), Emitted position stmt
  | .block body _, position => emitted_block (emittedEach body fun k => position ++ [k])
  | .declare _ written _ _, _ => emitted_declare written
  | .assign _ _ _ _, _ => emitted_assign
  | .ifThen _ yes _, _ => emitted_ifThen (emitted yes _)
  | .ifElse _ yes no _, _ => emitted_ifElse (emitted yes _) (emitted no _)
  | .loop _ body _, _ => emitted_loop (emitted body _)
  | .leave given _, _ => emitted_leave given
  | .evaluate _ _, _ => emitted_evaluate

theorem emittedEach : ∀ (body : List Stmt) (place : Nat → Position) (k : Nat) (stmt : Stmt),
    body[k]? = some stmt → Emitted (place k) stmt
  | [], _, _, _, here => nomatch here
  | first :: _, place, 0, _, here => Option.some.inj here ▸ emitted first (place 0)
  | _ :: rest, place, k + 1, stmt, here => emittedEach rest (fun k => place (k + 1)) k stmt here
end

end Stmt

end Covenant
