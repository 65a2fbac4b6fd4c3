import Covenant.Proofs.Compile.Lines
import Covenant.Proofs.Machine.Steps
import Covenant.Proofs.Term.Value
import Covenant.Run
/-!
The code of an expression computes its value.

* `Delivers`: a run from a state comes to a place with the outcome of an evaluation on its stack, or to
  a step that fails as the evaluation does;
* `Term.Computes`: so it does from the first instruction of the code of a term, wherever that stands;
* `expression_is_evaluated`: the code of an expression puts the value of the expression on the stack.
-/

namespace Covenant

open Code Machine
open Evaluation (lift counted)

/-- A run from a state comes to a place with the stack that an evaluation yields, or it fails as the
evaluation does. All else is left as it was. -/
def Delivers (code : LinkedCode) (s : Surroundings) (m : Machine) (place : Nat)
    (e : StateT Nat (Except Failure) (List Datum)) : Prop :=
  match e.run m.computed with
  | .ok (stack, computed) => ∃ k, Reaches code s m k
      ⟨stack, m.locals, m.receiver, place, m.steps + k, computed⟩
  | .error f => ∃ k m', Reaches code s m k m' ∧ Fails code s m' f

namespace Delivers

variable {code : LinkedCode} {s : Surroundings} {m : Machine} {mid place : Nat} {α : Type}

/-- One evaluation after another, from the state that the first one leaves. -/
theorem bind {v : StateT Nat (Except Failure) α} {stackOf : α → List Datum}
    {f : α → StateT Nat (Except Failure) (List Datum)} (first : Delivers code s m mid (stackOf <$> v))
    (rest : ∀ a c k, v.run m.computed = .ok (a, c) →
      Delivers code s ⟨stackOf a, m.locals, m.receiver, mid, m.steps + k, c⟩ place (f a)) :
    Delivers code s m place (v >>= f) := by
  unfold Delivers at first ⊢
  rw [StateT.run_map] at first
  rw [StateT.run_bind]
  cases hv : v.run m.computed with
  | error failure =>
    rw [hv] at first
    exact first
  | ok result =>
    obtain ⟨a, c⟩ := result
    rw [hv] at first
    obtain ⟨k, reached⟩ := first
    have after := rest a c k hv
    unfold Delivers at after
    rw [ok_bind]
    dsimp only at after ⊢
    cases hf : (f a).run c with
    | error failure =>
      rw [hf] at after
      obtain ⟨k', m', reached', fails⟩ := after
      exact ⟨k + k', m', reached.trans reached', fails⟩
    | ok result =>
      rw [hf] at after
      obtain ⟨k', reached'⟩ := after
      exact ⟨k + k', by rw [← Nat.add_assoc]; exact reached.trans reached'⟩

/-- An evaluation after steps that only move on and change the stack. -/
theorem after {k p : Nat} {stack : List Datum} {e : StateT Nat (Except Failure) (List Datum)}
    (reached : Reaches code s m k ⟨stack, m.locals, m.receiver, p, m.steps + k, m.computed⟩)
    (rest : Delivers code s ⟨stack, m.locals, m.receiver, p, m.steps + k, m.computed⟩ place e) :
    Delivers code s m place e := by
  unfold Delivers at rest ⊢
  dsimp only at rest ⊢
  cases he : e.run m.computed with
  | error failure =>
    rw [he] at rest
    obtain ⟨k', m', reached', fails⟩ := rest
    exact ⟨k + k', m', reached.trans reached', fails⟩
  | ok result =>
    rw [he] at rest
    obtain ⟨k', reached'⟩ := rest
    exact ⟨k + k', by rw [← Nat.add_assoc]; exact reached.trans reached'⟩

/-- One instruction that answers with a value. -/
theorem of_answer {j : Instruction Nat} {r : Except Failure Datum} {stack : List Datum} {c : Nat}
    {v : Evaluation Datum} (here : code[m.place]? = some j)
    (answers : (execute s j).run { m with steps := m.steps + 1, place := m.place + 1 } =
      answer r ⟨stack, m.locals, m.receiver, m.place + 1, m.steps + 1, c⟩)
    (value : v.run m.computed = r.map (·, c)) :
    Delivers code s m (m.place + 1) ((· :: stack) <$> v) := by
  have next := step_of_instruction (s := s) here
  unfold Delivers
  rw [StateT.run_map, value]
  rw [answers] at next
  cases r with
  | error f => exact ⟨0, m, .refl m, _, next⟩
  | ok d => exact ⟨1, .one next⟩

end Delivers

namespace Term

/-- The code of a term computes a value, wherever it stands. -/
def Computes (t : Term) (v : World → Evaluation Datum) : Prop :=
  ∀ (l : Linkage) (n place : Nat), l.Holds place (t.code n) → ∀ (s : Surroundings) (m : Machine),
    m.place = place → Delivers l.code s m (place + size (t.code n))
      ((· :: m.stack) <$> v ⟨s, m.locals, m.receiver⟩)

namespace Computes

variable {t t' a b : Term} {v v' : World → Evaluation Datum} {i : Instruction String}

theorem congr (h : t.Computes v) (same : ∀ w, v w = v' w) : t.Computes v' := by
  obtain rfl : v = v' := funext same
  exact h

/-- A term whose code is one instruction. -/
theorem one (code : ∀ n, t.code n = [.op i])
    (last : ∀ (l : Linkage) (s : Surroundings) (m : Machine), l.HasAt m.place i →
      Delivers l.code s m (m.place + 1) ((· :: m.stack) <$> v ⟨s, m.locals, m.receiver⟩)) :
    t.Computes v := by
  intro l n place holds s m here
  rw [code] at holds ⊢
  subst here
  exact last l s m holds.1

/-- A term that applies an instruction to the value of another one. -/
theorem unary {f : World → Datum → Evaluation Datum} (code : ∀ n, t'.code n = t.code n ++ [.op i])
    (first : t.Computes v)
    (last : ∀ (l : Linkage) (s : Surroundings) (d : Datum) (st lo : List Datum) (r : Datum)
      (place n c : Nat), l.HasAt place i → Delivers l.code s ⟨d :: st, lo, r, place, n, c⟩ (place + 1)
        ((· :: st) <$> f ⟨s, lo, r⟩ d)) : t'.Computes fun w => v w >>= f w := by
  intro l n place holds s m here
  rw [code] at holds ⊢
  obtain ⟨before, after⟩ := Linkage.holds_append.mp holds
  rw [map_bind, size_append, ← Nat.add_assoc]
  exact .bind (first l n place before s m here) fun d c k _ => last l s d _ _ _ _ _ _ after.1

/-- A term that applies an instruction to the values of two others. -/
theorem binary {f : World → Datum → Datum → Evaluation Datum}
    (code : ∀ n, t.code n = a.code n ++ b.code (n + a.labels) ++ [.op i]) (first : a.Computes v)
    (second : b.Computes v')
    (last : ∀ (l : Linkage) (s : Surroundings) (d e : Datum) (st lo : List Datum) (r : Datum)
      (place n c : Nat), l.HasAt place i →
        Delivers l.code s ⟨e :: d :: st, lo, r, place, n, c⟩ (place + 1)
          ((· :: st) <$> f ⟨s, lo, r⟩ d e)) :
    t.Computes fun w => v w >>= fun d => v' w >>= fun e => f w d e := by
  intro l n place holds s m here
  rw [code] at holds ⊢
  obtain ⟨both, after⟩ := Linkage.holds_append.mp holds
  obtain ⟨left, right⟩ := Linkage.holds_append.mp both
  have total : place + size (a.code n ++ b.code (n + a.labels) ++ [.op i]) =
      place + size (a.code n) + size (b.code (n + a.labels)) + 1 := by
    simp only [size_append, size_op, size_nil]
    omega
  rw [size_append, ← Nat.add_assoc] at after
  rw [total]
  simp only [map_bind]
  refine .bind (first l n place left s m here) fun d c k _ => ?_
  refine .bind (second l _ _ right s _ rfl) fun e c' k' _ => ?_
  exact last l s d e _ _ _ _ _ _ after.1

/-- A term whose second operand is left out when the first one decides: its value is kept twice, a
jump takes one of the two, and the other one stays or is dropped. -/
theorem logical (jump : String → Instruction String) (decides : Datum → Bool)
    (code : ∀ n, t.code n = a.code (n + 1) ++ [.op .dup, .op (jump (labelName n)), .op .drop] ++
      b.code (n + 1 + a.labels) ++ [.label (labelName n)])
    (jumps : ∀ (l : Linkage) (s : Surroundings) (d : Datum) (st lo : List Datum) (r : Datum)
      (place target n c : Nat) (name : String), l.HasAt place (jump name) →
        l.labels.lookup name = some target → step l.code s ⟨d :: st, lo, r, place, n, c⟩ =
          some (.ok none, ⟨st, lo, r, if decides d then target else place + 1, n + 1, c⟩))
    (first : a.Computes v) (second : b.Computes v') :
    t.Computes fun w => v w >>= fun d => if decides d then pure d else v' w := by
  intro l n place holds s m here
  rw [code] at holds ⊢
  obtain ⟨rest, label⟩ := Linkage.holds_append.mp holds
  obtain ⟨rest, right⟩ := Linkage.holds_append.mp rest
  obtain ⟨left, ⟨j, hj, dup⟩, leap, ⟨j', hj', drop⟩, -⟩ := Linkage.holds_append.mp rest
  cases hj
  cases hj'
  have target := label.1
  simp only [size_append, size_op, size_label, size_nil, Nat.add_zero, ← Nat.add_assoc,
    Nat.zero_add] at right target ⊢
  rw [map_bind]
  refine .bind (first l _ place left s m here) fun d c k _ => ?_
  have twice : Reaches l.code s ⟨d :: m.stack, m.locals, m.receiver, place + size (a.code (n + 1)),
      m.steps + k, c⟩ 1 _ := .one ((step_of_instruction dup).trans (by rw [execute_dup]))
  have jumped := twice.snoc (jumps l s d (d :: m.stack) m.locals m.receiver _ _ _ c _ leap target)
  cases hd : decides d with
  | true =>
    rw [hd, if_pos rfl] at jumped
    exact ⟨2, jumped⟩
  | false =>
    rw [hd, if_neg Bool.false_ne_true] at jumped
    have dropped := jumped.snoc ((step_of_instruction drop).trans (by rw [execute_drop]))
    exact .after dropped (second l _ _ right s ⟨m.stack, m.locals, m.receiver, _, _, c⟩ rfl)

/-- A conjunction is decided by what is false. -/
theorem both (first : a.Computes v) (second : b.Computes v') : (Term.both a b).Computes
    fun w => v w >>= fun d => if d.isTrue then v' w else pure d := by
  refine (logical .jumpIfFalse (fun d => !d.isTrue) (fun n => rfl) ?_ first second).congr
    fun w => ?_
  · intro l s d st lo r place target n c name ⟨j, hj, here⟩ known
    rw [linkInstruction, linkTarget_eq_ok.mpr known] at hj
    cases hj
    rw [step_of_instruction here, execute_jumpIfFalse]
    cases d.isTrue <;> rfl
  · refine bind_congr fun d => ?_
    cases d.isTrue <;> rfl

/-- A disjunction is decided by what is true. -/
theorem either (first : a.Computes v) (second : b.Computes v') : (Term.either a b).Computes
    fun w => v w >>= fun d => if d.isTrue then pure d else v' w := by
  refine logical .jumpIfTrue Datum.isTrue (fun n => rfl) ?_ first second
  intro l s d st lo r place target n c name ⟨j, hj, here⟩ known
  rw [linkInstruction, linkTarget_eq_ok.mpr known] at hj
  cases hj
  rw [step_of_instruction here, execute_jumpIfTrue]

end Computes

/-! ## Instructions -/

theorem computes_literal {p : Primitive} {d : Datum} (h : IsLiteral p d) :
    (Term.literal p d).Computes fun _ => pure d := by
  refine .one (fun n => rfl) fun l s m ⟨j, hj, here⟩ => ?_
  rw [linkInstruction, literalValue_of_isLiteral h] at hj
  cases hj
  exact .of_answer here (execute_push s _ _ _) rfl

theorem computes_slot (index : Nat) :
    (Term.slot index).Computes fun w => lift (slotValue w.locals index) := by
  refine .one (fun n => rfl) fun l s m ⟨j, hj, here⟩ => ?_
  obtain ⟨_, -, hj⟩ := bind_eq_ok.mp hj
  cases hj
  exact .of_answer here (execute_loadLocal s _ _) rfl

theorem computes_field (name : String) :
    (Term.field name).Computes fun w => lift (Failure.lift (w.receiver.member name)) := by
  refine .one (fun n => rfl) fun l s m ⟨j, hj, here⟩ => ?_
  obtain ⟨_, -, hj⟩ := bind_eq_ok.mp hj
  cases hj
  exact .of_answer here (execute_loadThis s _ _) rfl

theorem computes_caller : Term.caller.Computes fun w => pure w.around.caller := by
  refine .one (fun n => rfl) fun l s m ⟨j, hj, here⟩ => ?_
  cases hj
  exact .of_answer here (execute_loadContext s _ _) rfl

namespace Computes

variable {t a b : Term} {v v' : World → Evaluation Datum}

theorem member (name : String) (h : t.Computes v) :
    (Term.member t name).Computes fun w => v w >>= fun d => lift (Failure.lift (d.member name)) := by
  refine .unary (fun n => rfl) h fun l s d st lo r place n c ⟨j, hj, here⟩ => ?_
  cases hj
  exact .of_answer here (execute_getField ..) rfl

theorem referenced (contract : String) (h : t.Computes v) : (Term.referenced contract t).Computes
    fun w => v w >>= fun d => lift (w.around.recordOf contract d) := by
  refine .unary (f := fun w d => lift (w.around.recordOf contract d)) (fun n => rfl) h
    fun l s d st lo r place n c ⟨j, hj, here⟩ => ?_
  rw [linkInstruction] at hj
  split at hj
  · cases hj
    exact .of_answer here (execute_deref ..) rfl
  · cases hj

theorem arraySize (h : t.Computes v) : (Term.arraySize t).Computes
    fun w => v w >>= fun d => lift (Failure.lift ((fun n : Nat => Datum.integer n) <$> d.size)) := by
  refine .unary (fun n => rfl) h fun l s d st lo r place n c ⟨j, hj, here⟩ => ?_
  cases hj
  exact .of_answer here (execute_arrayLength ..) rfl

theorem textSize (h : t.Computes v) : (Term.textSize t).Computes
    fun w => v w >>= fun d => lift (Failure.lift ((fun n : Nat => Datum.integer n) <$> d.size)) := by
  refine .unary (fun n => rfl) h fun l s d st lo r place n c ⟨j, hj, here⟩ => ?_
  cases hj
  exact .of_answer here (execute_textLength ..) rfl

theorem not (h : t.Computes v) :
    (Term.not t).Computes fun w => v w >>= fun d => pure (.boolean (!d.isTrue)) := by
  refine .unary (fun n => rfl) h fun l s d st lo r place n c ⟨j, hj, here⟩ => ?_
  cases hj
  exact .of_answer here (execute_not ..) rfl

theorem truth (h : t.Computes v) :
    (Term.truth t).Computes fun w => v w >>= fun d => pure (.boolean d.holds) := by
  refine .unary (fun n => rfl) h fun l s d st lo r place n c ⟨j, hj, here⟩ => ?_
  cases hj
  exact .of_answer here (execute_truthy ..) rfl

theorem negate (p : Primitive) (h : t.Computes v) : (Term.negate p t).Computes
    fun w => v w >>= fun d => counted fun origin => d.arith origin .neg p .null := by
  refine .unary (fun n => rfl) h fun l s d st lo r place n c ⟨j, hj, here⟩ => ?_
  cases hj
  exact .of_answer here (execute_negate ..) rfl

theorem element (ha : a.Computes v) (hb : b.Computes v') : (Term.element a b).Computes
    fun w => v w >>= fun d => v' w >>= fun e => lift (d.element e) := by
  refine .binary (fun n => rfl) ha hb fun l s d e st lo r place n c ⟨j, hj, here⟩ => ?_
  cases hj
  exact .of_answer here (execute_arrayGet ..) rfl

theorem indexOf (ha : a.Computes v) (hb : b.Computes v') : (Term.indexOf a b).Computes
    fun w => v w >>= fun d => v' w >>= fun e => lift (Failure.lift (d.indexOf e)) := by
  refine .binary (fun n => rfl) ha hb fun l s d e st lo r place n c ⟨j, hj, here⟩ => ?_
  cases hj
  exact .of_answer here (execute_arrayIndexOf ..) rfl

theorem includes (ha : a.Computes v) (hb : b.Computes v') : (Term.includes a b).Computes
    fun w => v w >>= fun d => v' w >>= fun e =>
      lift (Failure.lift (Datum.boolean <$> d.includes e)) := by
  refine .binary (fun n => rfl) ha hb fun l s d e st lo r place n c ⟨j, hj, here⟩ => ?_
  cases hj
  exact .of_answer here (execute_arrayIncludes ..) rfl

theorem join (ha : a.Computes v) (hb : b.Computes v') : (Term.join a b).Computes
    fun w => v w >>= fun d => v' w >>= fun e => counted fun origin => Failure.lift (d.plus origin e) := by
  refine .binary (fun n => rfl) ha hb fun l s d e st lo r place n c ⟨j, hj, here⟩ => ?_
  cases hj
  exact .of_answer here (execute_concat ..) rfl

theorem compare (k : Comparison) (ha : a.Computes v) (hb : b.Computes v') :
    (Term.compare k a b).Computes fun w => v w >>= fun d => v' w >>= fun e =>
      lift (Failure.lift (Datum.boolean <$> k.holds d e)) := by
  refine .binary (fun n => rfl) ha hb fun l s d e st lo r place n c ⟨j, hj, here⟩ => ?_
  cases hj
  exact .of_answer here (execute_compare ..) rfl

theorem arith {o : Arith} (two : o ≠ .neg) (p : Primitive) (ha : a.Computes v)
    (hb : b.Computes v') : (Term.arith o p a b).Computes fun w => v w >>= fun d => v' w >>= fun e =>
      counted fun origin => d.arith origin o p e := by
  refine .binary (fun n => rfl) ha hb fun l s d e st lo r place n c ⟨j, hj, here⟩ => ?_
  cases hj
  exact .of_answer here (execute_arith s _ _ _ _ _ _ two ..) rfl

end Computes

/-- The code of items puts the values of all of them on the stack. -/
theorem delivers_items {s : Scope} {element : Option Ty} {items : List Expr} {terms : List Term}
    (length : items.length = terms.length)
    (each : ∀ e t, (e, t) ∈ items.zip terms → t.Computes fun w => e.value s w element)
    (l : Linkage) (n : Nat) (around : Surroundings) (m : Machine)
    (holds : l.Holds m.place (codeOfItems n terms)) :
    Delivers l.code around m (m.place + size (codeOfItems n terms))
      ((fun ds => ds.reverse ++ m.stack) <$>
        Expr.values s ⟨around, m.locals, m.receiver⟩ element items) := by
  induction items generalizing terms n m with
  | nil =>
    cases terms with
    | nil => exact ⟨0, .refl m⟩
    | cons t rest => cases length
  | cons e items ih =>
    cases terms with
    | nil => cases length
    | cons t terms =>
      rw [List.zip_cons_cons] at each
      rw [codeOfItems] at holds ⊢
      obtain ⟨first, rest⟩ := Linkage.holds_append.mp holds
      rw [Expr.values, map_bind, size_append, ← Nat.add_assoc]
      refine .bind (each e t List.mem_cons_self l n _ first around m rfl) fun d c k _ => ?_
      have others := ih (Nat.succ.inj length) (fun e t h => each e t (List.mem_cons_of_mem _ h))
        (n + t.labels) ⟨d :: m.stack, m.locals, m.receiver, m.place + size (t.code n), m.steps + k, c⟩
        rest
      have same : ∀ ds : List Datum, (d :: ds).reverse ++ m.stack = ds.reverse ++ d :: m.stack :=
        fun ds => by rw [List.reverse_cons, List.append_assoc]; rfl
      rw [map_bind]
      simp only [map_pure, same]
      exact others

namespace Computes

theorem array {s : Scope} {element : Option Ty} {items : List Expr} {terms : List Term}
    (length : items.length = terms.length)
    (each : ∀ e t, (e, t) ∈ items.zip terms → t.Computes fun w => e.value s w element) :
    (Term.array terms).Computes fun w =>
      Expr.values s w element items >>= fun ds => pure (.list ds) := by
  intro l n place holds around m here
  subst here
  rw [code] at holds ⊢
  obtain ⟨first, ⟨j, hj, here⟩, -⟩ := Linkage.holds_append.mp holds
  cases hj
  rw [size_append, ← Nat.add_assoc, map_bind]
  refine .bind (delivers_items length each l n around m first) fun ds c k hds => ?_
  have count : terms.length = ds.length := length.symm.trans (Expr.length_of_values hds).symm
  rw [count] at here
  exact .of_answer here (execute_arrayNew ..) rfl

end Computes

end Term

theorem IsCondition.computes {t c : Term} {type : Ty} (h : IsCondition t type c)
    {v : World → Evaluation Datum} (ht : t.Computes v) :
    c.Computes fun w => v w >>= fun d => pure (Expr.truth (some type) d) := by
  cases h with
  | boolean => exact ht.congr fun w => by simp [Expr.truth]
  | truth has =>
    refine ht.truth.congr fun w => ?_
    have other : some type ≠ some .boolean := by
      rintro h
      cases h
      rcases has with h | h | h <;> cases h
    simp [Expr.truth, other]

theorem Operates.computes {op : BinaryOp} {a b t : Term} {type type' : Ty}
    (h : Operates op a b type t type') {v v' : World → Evaluation Datum} (ha : a.Computes v)
    (hb : b.Computes v') : t.Computes fun w => v w >>= fun d => v' w >>= fun e =>
      Expr.applied op (some type) d e := by
  cases h with
  | compare stands _ =>
    refine (ha.compare _ hb).congr fun w => ?_
    simp only [Expr.applied, stands]
  | join stands =>
    refine (ha.join hb).congr fun w => ?_
    rw [stands]
    rfl
  | @arith p o stands numeric =>
    have two : o ≠ .neg := by
      rintro rfl
      cases op <;> cases stands
    refine (ha.arith two p hb).congr fun w => ?_
    have other : op.comparison? = none := by cases op <;> first | rfl | cases stands
    have plain : ∀ d e, Expr.applied op (some (.primitive p)) d e =
        counted fun origin => d.arith origin o p e := by
      intro d e
      simp only [Expr.applied, other, stands]
      cases p <;> first | (cases o <;> rfl) | cases numeric
    simp only [plain]

/-- The code of an expression computes its value. -/
theorem Elaborates.computes {s : Scope} {expected : Option Ty} {e : Expr} {t : Term} {type : Ty}
    (h : Elaborates s expected e t type) : t.Computes fun w => e.value s w expected := by
  induction h with
  | number h | negative h =>
    obtain ⟨he, literal, -⟩ := Expr.literalOf_eq_ok (Expr.literal_eq_literalOf .. ▸ h)
    cases he
    exact Term.computes_literal literal
  | string => exact Term.computes_literal (.string _)
  | boolean => exact Term.computes_literal (.boolean _)
  | @items element items terms line length _ ih =>
    refine (Term.Computes.array length fun e t h => ih e t h).congr fun w => ?_
    cases items <;> rfl
  | @itemsOfFirst expected first rest t terms element line other head length each ih ihs =>
    have type : (Expr.array (first :: rest) 0).typeOf s expected = some (.array element) :=
      (Elaborates.itemsOfFirst other head length each).typeOf_eq
    have all : ∀ e u, (e, u) ∈ (first :: rest).zip (t :: terms) →
        u.Computes fun w => e.value s w (some element) := by
      intro e u h
      rcases List.mem_cons.mp h with he | h
      · cases he
        exact ih.congr fun w => (Expr.value_of_typeOf _ head.typeOf_eq).symm
      · exact ihs e u h
    have count : (first :: rest).length = (t :: terms).length := congrArg Nat.succ length
    refine (Term.Computes.array count all).congr fun w => ?_
    rw [Expr.value, type]
    rfl
  | name _ found =>
    refine (Term.computes_slot _).congr fun w => ?_
    rw [Expr.value, found]
    rfl
  | field => exact Term.computes_field _
  | caller context => exact Term.computes_caller.congr fun w => (Expr.value_caller context _ _).symm
  | arraySize other plain whole ih =>
    refine ih.arraySize.congr fun w => ?_
    rw [Expr.value_member other plain, whole.typeOf_eq]
  | textSize other plain whole ih =>
    refine ih.textSize.congr fun w => ?_
    rw [Expr.value_member other plain, whole.typeOf_eq]
  | referenced other plain whole _ _ ih =>
    refine ((ih.referenced _).member _).congr fun w => ?_
    rw [Expr.value_member other plain, whole.typeOf_eq, bind_assoc]
  | member other plain whole _ ih =>
    refine (ih.member _).congr fun w => ?_
    rw [Expr.value_member other plain, whole.typeOf_eq]
  | element _ _ _ ih ih' => exact ih.element ih'
  | indexOf whole _ ih ih' =>
    refine (ih.indexOf ih').congr fun w => ?_
    rw [Expr.value, whole.typeOf_eq]
    rfl
  | includes whole _ ih ih' =>
    refine (ih.includes ih').congr fun w => ?_
    rw [Expr.value, whole.typeOf_eq]
    rfl
  | not value condition ih =>
    refine (condition.computes ih).not.congr fun w => ?_
    rw [Expr.value, value.typeOf_eq, bind_assoc]
    rfl
  | negate other value _ ih =>
    refine (ih.negate _).congr fun w => ?_
    rw [Expr.value_negate other, value.typeOf_eq]
  | both first condition second condition' ih ih' =>
    refine ((condition.computes ih).both (condition'.computes ih')).congr fun w => ?_
    rw [Expr.value, first.typeOf_eq, second.typeOf_eq, bind_assoc]
    rfl
  | either first condition second condition' ih ih' =>
    refine ((condition.computes ih).either (condition'.computes ih')).congr fun w => ?_
    rw [Expr.value, first.typeOf_eq, second.typeOf_eq, bind_assoc]
    rfl
  | ofLeft plain typed first _ operates ih ih' =>
    refine (operates.computes ih ih').congr fun w => ?_
    rw [Expr.value_binary plain, Expr.operandType_of_left typed, first.typeOf_eq]
    simp only [Expr.value_of_typeOf _ first.typeOf_eq]
  | ofRight plain untyped typed second _ operates ih ih' =>
    refine (operates.computes ih' ih).congr fun w => ?_
    rw [Expr.value_binary plain, Expr.operandType_of_right untyped typed, second.typeOf_eq]
    simp only [Expr.value_of_typeOf _ second.typeOf_eq]
  | @ofLiterals expected op left right line a b t type type' plain untyped untyped' first own second
      operates ih ih' =>
    have at_type : a.Computes fun w => left.value s w (some type) := by
      cases found : Expr.literalType op expected with
      | none =>
        rw [found] at first ih
        exact ih.congr fun w => (Expr.value_of_typeOf _ first.typeOf_eq).symm
      | some known =>
        rw [found] at own ih
        obtain rfl : known = type := own
        exact ih
    refine (operates.computes at_type ih').congr fun w => ?_
    rw [Expr.value_binary plain, Expr.operandType_of_literals untyped untyped' _ first.typeOf_eq own]

/-- The code of an expression, wherever it is linked and whatever is on the stack, puts the value of the
expression there and comes to the place after it with all else as it was, or it fails as the evaluation
does. -/
theorem expression_is_evaluated {s : Scope} {expected : Option Ty} {e : Expr} {t : Term} {type : Ty}
    {abi : Abi} {header : Header} {before after : Code} {n : Nat} {code : LinkedCode}
    (typed : e.typed s expected = .ok (.value t type))
    (linked : Code.link abi header (before ++ t.code n ++ after) = .ok code)
    (around : Surroundings) (m : Machine) (here : m.place = before.size) :
    match (e.value s ⟨around, m.locals, m.receiver⟩ expected).run m.computed with
    | .ok (d, computed) => ∃ k, Reaches code around m k
        ⟨d :: m.stack, m.locals, m.receiver, m.place + (t.code n).size, m.steps + k, computed⟩
    | .error f => ∃ k m', Reaches code around m k m' ∧ Fails code around m' f := by
  obtain ⟨labels, holds, -⟩ := exists_linkage_of_link linked
  obtain ⟨holds, -⟩ := Linkage.holds_append.mp holds
  obtain ⟨-, holds⟩ := Linkage.holds_append.mp holds
  rw [Nat.zero_add, ← here] at holds
  have delivered := (Expr.elaborates_of_typed typed).computes _ n _ holds around m rfl
  unfold Delivers at delivered
  rw [StateT.run_map] at delivered
  cases h : (e.value s ⟨around, m.locals, m.receiver⟩ expected).run m.computed with
  | error f =>
    rw [h] at delivered
    exact delivered
  | ok result =>
    rw [h] at delivered
    exact delivered

def isLow : Expr :=
  .binary .and (.name "b" 1) (.binary .less (.member (.this 1) "n" 1) (.number "9" 1) 1) 1

def lowScope : Scope := ⟨[], ⟨"R", [("n", .u32)]⟩, none, [.boolean], [[("b", 0)]]⟩

def lowTerm : Term := .both (.slot 0) (.compare .less (.field "n") (.literal .u32 (.integer 9)))

def lowAbi : Abi where
  contract := "R"
  function := "f"
  thisType := some ⟨"R", [("n", .u32)]⟩
  parameterNames := ["b"]
  parameterTypes := [.boolean]
  returnType := some .boolean
  otherTypes := []
  dependentFields := [("n", .u32)]
  requiredReferences := []
  callPolicy := .anyone
  readPolicy := .anyone

theorem isLow_is_evaluated : ∃ code,
    Code.link lowAbi ⟨"R", "f", 1, 1, true⟩ ([] ++ lowTerm.code 0 ++ [.op .leaveValue]) = .ok code ∧
      isLow.typed lowScope none = .ok (.value lowTerm .boolean) ∧ ∃ k, Reaches code ⟨none, []⟩
        ⟨[.text "kept"], [.boolean true], .record [("n", .integer 4)], 0, 0, 0⟩ k
        ⟨[.boolean true, .text "kept"], [.boolean true], .record [("n", .integer 4)], 7, 0 + k, 0⟩ := by
  have links : (Code.link lowAbi ⟨"R", "f", 1, 1, true⟩
      ([] ++ lowTerm.code 0 ++ [.op .leaveValue])).isOk = true := by decide +kernel
  have typed : isLow.typed lowScope none = .ok (.value lowTerm .boolean) := rfl
  cases linked : Code.link lowAbi ⟨"R", "f", 1, 1, true⟩
      ([] ++ lowTerm.code 0 ++ [.op .leaveValue]) with
  | error fault =>
    rw [linked] at links
    cases links
  | ok code =>
    exact ⟨code, rfl, typed, expression_is_evaluated typed linked ⟨none, []⟩
      ⟨[.text "kept"], [.boolean true], .record [("n", .integer 4)], 0, 0, 0⟩ rfl⟩

/-- A conjunction whose first operand is a local that has not been set. -/
def unsetSource : String :=
  "contract R \x7b @call g(c: boolean): boolean \x7b if (c) let b = true; return b && true; \x7d \x7d"

def unsetCall : Call :=
  { Call.empty with receiver := .record [], arguments := .list [.boolean false] }

def Machine.Departure.isNull : Departure → Bool
  | .value .null => true
  | _ => false

theorem Machine.Departure.eq_of_isNull {d : Departure} (h : d.isNull = true) : d = .value .null := by
  cases d with
  | plain => cases h
  | value result => cases result <;> first | rfl | cases h

/-- Such a conjunction is no boolean: it is the operand that decides it, which is null. -/
theorem conjunction_of_unset_is_null : ∃ f inputs, linkSource unsetSource "R" "g" = .ok f ∧
    readInputs f.abi unsetCall = .ok inputs ∧
    (Machine.run f.code ⟨inputs.callerKey, []⟩ 100 (f.machine inputs)).outcome =
      .ok (.value .null) := by
  have runs : (do
      let f ← (linkSource unsetSource "R" "g").toOption
      let inputs ← (readInputs f.abi unsetCall).toOption
      let ended ← (Machine.run f.code ⟨inputs.callerKey, []⟩ 100 (f.machine inputs)).outcome.toOption
      return ended.isNull) = some true := by decide +kernel
  simp only [Option.bind_eq_bind, Option.bind_eq_some_iff, toOption_eq_some, Option.pure_def,
    Option.some.injEq] at runs
  obtain ⟨f, linked, inputs, read, ended, outcome, null⟩ := runs
  exact ⟨f, inputs, linked, read, outcome.trans (congrArg Except.ok (Machine.Departure.eq_of_isNull null))⟩

end Covenant
