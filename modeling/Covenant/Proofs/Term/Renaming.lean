import Covenant.Proofs.Datum.Renaming
import Covenant.Proofs.Term.Value
/-!
Evaluation with other marks. Results that are no numbers are marked with the operation of arithmetic that
made them, and an evaluation that begins to count elsewhere makes the same results with other marks.

* `World.renamed`, `World.Before`: a world with its marks renamed, and one with earlier marks only;
* `Evaluation.Alike`: two evaluations go alike, from numbers of operations that a renaming takes one to
  the other;
* `Expr.value_alike`: so do those of an expression in a world and in that world renamed;
* `Continues`, `Echoes`: a renaming goes on from where another one was, and an evaluation has the result of
  another one with its marks renamed so.
-/

namespace Covenant

open Evaluation (lift counted)
open Machine (slotValue)

/-! ## Worlds -/

namespace Surroundings

def renamed (f : Nat → Nat) (s : Surroundings) : Surroundings :=
  { s with records := s.records.map fun r => (r.1, r.2.map fun e => (e.1, e.2.renamed f)) }

variable {f : Nat → Nat}

theorem caller_renamed (s : Surroundings) : (s.renamed f).caller = s.caller.renamed f := by
  unfold caller renamed
  cases s.callerKey <;> rfl

theorem recordOf_renamed (s : Surroundings) (contract : String) (d : Datum) :
    (s.renamed f).recordOf contract (d.renamed f) = Datum.renamedAnswer f (s.recordOf contract d) := by
  cases d with
  | bytes id =>
    have found : (((s.renamed f).records.lookup contract).getD []).lookup id =
        (((s.records.lookup contract).getD []).lookup id).map (Datum.renamed f) := by
      have entries := lookup_map (fun r : String × List (Bytes × Datum) =>
        r.2.map fun e => (e.1, e.2.renamed f)) s.records contract
      rw [renamed, entries]
      cases s.records.lookup contract with
      | none => rfl
      | some entries => exact lookup_map (fun e => e.2.renamed f) entries id
    rw [Datum.renamed, recordOf, recordOf, found]
    cases ((s.records.lookup contract).getD []).lookup id with
    | none => rfl
    | some record =>
      cases record with
      | list items => simp [Datum.renamedAnswer]
      | record fields => simp [Datum.renamedAnswer]
      | _ => rfl
  | list items => rw [Datum.renamed_list]; rfl
  | record fields => rw [Datum.renamed_record]; rfl
  | _ => rfl

end Surroundings

namespace World

def renamed (f : Nat → Nat) (w : World) : World :=
  ⟨w.around.renamed f, w.locals.map (Datum.renamed f), w.receiver.renamed f⟩

/-- The marks in a world are those of operations before a number. -/
structure Before (n : Nat) (w : World) : Prop where
  records : ∀ r ∈ w.around.records, ∀ e ∈ r.2, e.2.Before n
  locals : ∀ d ∈ w.locals, d.Before n
  receiver : w.receiver.Before n

variable {f g : Nat → Nat} {n n' : Nat} {w : World}

theorem Before.mono (h : w.Before n) (le : n ≤ n') : w.Before n' where
  records r hr e he := (h.records r hr e he).mono le
  locals d hd := (h.locals d hd).mono le
  receiver := h.receiver.mono le

/-- Only earlier marks count. -/
theorem Before.renamed_congr (h : w.Before n) (same : ∀ k, k < n → f k = g k) :
    w.renamed f = w.renamed g := by
  have each : ∀ {d : Datum}, d.Before n → d.renamed f = d.renamed g :=
    fun early => Datum.renamed_congr fun k hk => same k (early k hk)
  have records : w.around.renamed f = w.around.renamed g := by
    unfold Surroundings.renamed
    congr 1
    refine List.map_congr_left fun r hr => congrArg (Prod.mk r.1) ?_
    exact List.map_congr_left fun e he => congrArg (Prod.mk e.1) (each (h.records r hr e he))
  unfold renamed
  rw [records, List.map_congr_left fun d hd => each (h.locals d hd), each h.receiver]

theorem renamed_id (w : World) : w.renamed id = w := by
  have same : (Datum.renamed id) = id := funext Datum.renamed_id
  simp [renamed, Surroundings.renamed, same]

theorem Before.renamed_eq_self (h : w.Before n) (keeps : ∀ k, k < n → f k = k) : w.renamed f = w :=
  (h.renamed_congr keeps).trans w.renamed_id

end World

theorem Machine.slotValue_renamed {f : Nat → Nat} (locals : List Datum) (slot : Nat) :
    slotValue (locals.map (Datum.renamed f)) slot = Datum.renamedAnswer f (slotValue locals slot) := by
  unfold slotValue
  rw [List.getElem?_map]
  cases locals[slot]? <;> rfl

/-! ## Evaluations -/

namespace Evaluation

/-- Two evaluations go alike: with a renaming that takes the numbers of the operations of the first one to
those of the second one, their results differ by that renaming. -/
structure Alike {α : Type} (f : Nat → Nat) (rename : α → α) (v v' : StateT Nat (Except Failure) α) :
    Prop where
  ok : ∀ n n' a c, v.run n = .ok (a, c) → n ≤ c ∧
    ((∀ j, n + j < c → f (n + j) = n' + j) → v'.run n' = .ok (rename a, n' + (c - n)))
  error : ∀ n n' failure, v.run n = .error failure →
    (∀ j, f (n + j) = n' + j) → v'.run n' = .error (failure.renamed f)

namespace Alike

variable {α β : Type} {f : Nat → Nat} {rename : α → α} {rename' : β → β}

theorem pure {a a' : α} (same : a' = rename a) :
    Alike f rename (pure a : StateT Nat (Except Failure) α) (Pure.pure a') where
  ok := by
    rintro n n' _ _ ⟨⟩
    refine ⟨Nat.le_refl n, fun _ => ?_⟩
    rw [Nat.sub_self, same]
    rfl
  error := by
    intro n n' failure h
    cases h

/-- One evaluation after another. -/
theorem bind {v v' : StateT Nat (Except Failure) α} {g g' : α → StateT Nat (Except Failure) β}
    (first : Alike f rename v v') (rest : ∀ a, Alike f rename' (g a) (g' (rename a))) :
    Alike f rename' (v >>= g) (v' >>= g') where
  ok := by
    intro n n' b c h
    rw [StateT.run_bind] at h
    obtain ⟨⟨a, m⟩, ha, hb⟩ := bind_eq_ok.mp h
    obtain ⟨le, run⟩ := first.ok n n' a m ha
    obtain ⟨le', run'⟩ := (rest a).ok m (n' + (m - n)) b c hb
    refine ⟨Nat.le_trans le le', fun shift => ?_⟩
    rw [StateT.run_bind, run fun j hj => shift j (by omega), ok_bind, run' fun j hj => ?_]
    · congr 2
      omega
    · have moved := shift (m - n + j) (by omega)
      rw [show n + (m - n + j) = m + j by omega] at moved
      omega
  error := by
    intro n n' failure h shift
    rw [StateT.run_bind] at h ⊢
    cases ha : v.run n with
    | error other =>
      rw [ha] at h
      cases h
      rw [first.error n n' _ ha shift]
      rfl
    | ok result =>
      obtain ⟨a, m⟩ := result
      rw [ha] at h
      obtain ⟨le, run⟩ := first.ok n n' a m ha
      rw [run fun j _ => shift j, ok_bind]
      refine (rest a).error m (n' + (m - n)) failure h fun j => ?_
      have moved := shift (m - n + j)
      rw [show n + (m - n + j) = m + j by omega] at moved
      omega

/-- What does not count operations. -/
theorem lift {r r' : Except Failure Datum} (same : r' = Datum.renamedAnswer f r) :
    Alike f (Datum.renamed f) (lift r) (Evaluation.lift r') where
  ok := by
    intro n n' d c h
    cases r with
    | error failure => cases h
    | ok d' =>
      cases h
      refine ⟨Nat.le_refl n, fun _ => ?_⟩
      rw [same, Nat.sub_self]
      rfl
  error := by
    intro n n' failure h _
    cases r with
    | ok d => cases h
    | error failure' =>
      cases h
      rw [same]
      rfl

theorem liftMisuse {r r' : Except Misuse Datum} (same : r' = Datum.renamed f <$> r) :
    Alike f (Datum.renamed f) (Evaluation.lift (Failure.lift r)) (Evaluation.lift (Failure.lift r')) :=
  .lift (by rw [same, Datum.renamedAnswer_lift])

/-- An operation of arithmetic. -/
theorem counted {r r' : Origin → Except Failure Datum}
    (same : ∀ o, r' (o.renamed f) = Datum.renamedAnswer f (r o)) :
    Alike f (Datum.renamed f) (counted r) (Evaluation.counted r') where
  ok := by
    intro n n' d c h
    have step : (r (.computed n)).map (·, n + 1) = .ok (d, c) := h
    cases made : r (.computed n) with
    | error failure =>
      rw [made] at step
      cases step
    | ok d' =>
      rw [made] at step
      cases step
      refine ⟨Nat.le_succ n, fun shift => ?_⟩
      have here : f n = n' := shift 0 (Nat.lt_succ_self n)
      have moved := same (.computed n)
      rw [made, Origin.renamed, here] at moved
      change (r' (.computed n')).map (·, n' + 1) = _
      rw [moved, Nat.add_sub_cancel_left]
      rfl
  error := by
    intro n n' failure h shift
    have step : (r (.computed n)).map (·, n + 1) = .error failure := h
    cases made : r (.computed n) with
    | ok d =>
      rw [made] at step
      cases step
    | error failure' =>
      rw [made] at step
      cases step
      have here : f n = n' := shift 0
      have moved := same (.computed n)
      rw [made, Origin.renamed, here] at moved
      change (r' (.computed n')).map (·, n' + 1) = _
      rw [moved]
      rfl

end Alike

end Evaluation

open Evaluation (Alike)

/-! ## Expressions -/

theorem Comparison.holds_renamed {f : Nat → Nat} (inj : f.Injective) (c : Comparison) (a b : Datum) :
    c.holds (a.renamed f) (b.renamed f) = c.holds a b := by
  cases c <;> simp only [holds, Datum.eq_renamed inj, Datum.order_renamed inj]

namespace Expr

variable {f : Nat → Nat}

theorem truth_renamed (type : Option Ty) (d : Datum) :
    truth type (d.renamed f) = (truth type d).renamed f := by
  unfold truth
  split
  · rfl
  · rw [Datum.holds_renamed, Datum.renamed]

theorem literalDatum_renamed (p : Primitive) (negative : Bool) (text : String) :
    (literalDatum p negative text).renamed f = literalDatum p negative text := by
  have plain : ∀ (m : Nat) (e : Int), (Decimal.toDouble negative m e).renamed f =
      Decimal.toDouble negative m e := by
    intro m e
    unfold Decimal.toDouble
    split_ifs <;> rfl
  unfold literalDatum
  split
  · simp only [Datum.renamed, Datum.float.injEq]
    split
    · rw [Double.renamed_eq] at plain ⊢
      exact (Double.roundSingle_remarked (o := .literal) _).symm.trans (by rw [plain]; rfl)
    · exact plain _ _
  · rw [Datum.renamed]

theorem map_boolean_renamed (r : Except Misuse Bool) :
    Datum.renamed f <$> (Datum.boolean <$> r) = Datum.boolean <$> r := by
  cases r <;> rfl

theorem map_size_renamed (r : Except Misuse Nat) : Datum.renamed f <$>
    ((fun n : Nat => Datum.integer n) <$> r) = (fun n : Nat => Datum.integer n) <$> r := by
  cases r <;> rfl

theorem applied_alike (inj : f.Injective) (op : BinaryOp) (type : Option Ty) (a b : Datum) :
    Alike f (Datum.renamed f) (applied op type a b) (applied op type (a.renamed f) (b.renamed f)) := by
  unfold applied
  split
  · refine .liftMisuse ?_
    rw [Comparison.holds_renamed inj, map_boolean_renamed]
  · refine .counted fun o => ?_
    rw [Datum.plus_renamed, Datum.renamedAnswer_lift]
  · refine .counted fun o => ?_
    rw [Datum.arith_renamed inj, Datum.renamedAnswer_arith]
  · exact .lift rfl

mutual
/-- An expression has the same value in a world renamed, from an operation renamed. -/
theorem value_alike (inj : f.Injective) (s : Scope) (w : World) (expected : Option Ty) : ∀ e : Expr,
    Alike f (Datum.renamed f) (e.value s w expected) (e.value s (w.renamed f) expected)
  | .number text _ => .pure (literalDatum_renamed ..).symm
  | .string _ _ | .boolean _ _ => .pure rfl
  | .array items _ => by
    rw [value, value]
    exact .bind (values_alike inj s w _ items) fun ds => .pure (Datum.renamed_list ds).symm
  | .name word _ => by
    rw [value, value]
    exact .lift (Machine.slotValue_renamed ..)
  | .member object word line => by
    by_cases own : ∃ line, object = .this line
    · obtain ⟨line, rfl⟩ := own
      exact .liftMisuse (Datum.member_renamed ..)
    have other : ∀ line, object ≠ .this line := fun line h => own ⟨line, h⟩
    cases context : s.isContext object with
    | true =>
      rw [value_caller context, value_caller context]
      exact .pure w.around.caller_renamed
    | false =>
      rw [value_member other context, value_member other context]
      refine .bind (value_alike inj s w none object) fun whole => ?_
      split
      · exact .bind (.lift (Surroundings.recordOf_renamed ..)) fun record =>
          .liftMisuse (Datum.member_renamed ..)
      · exact .liftMisuse (Datum.member_renamed ..)
      · refine .liftMisuse ?_
        rw [Datum.size_renamed, map_size_renamed]
  | .index object place _ => by
    rw [value, value]
    exact .bind (value_alike inj s w none object) fun whole =>
      .bind (value_alike inj s w (some .u32) place) fun index => .lift (Datum.element_renamed ..)
  | .method object word [argument] _ => by
    rw [value, value]
    refine .bind (value_alike inj s w none object) fun whole =>
      .bind (value_alike inj s w _ argument) fun item => ?_
    split
    · exact .liftMisuse (Datum.indexOf_renamed inj ..)
    · refine .liftMisuse ?_
      rw [Datum.includes_renamed inj, map_boolean_renamed]
  | .unary .not operand _ => by
    rw [value, value]
    refine .bind (value_alike inj s w (some .boolean) operand) fun d => .pure ?_
    rw [truth_renamed, Datum.isTrue_renamed, Datum.renamed]
  | .unary .negate operand line => by
    by_cases number : ∃ text line, operand = .number text line
    · obtain ⟨text, line, rfl⟩ := number
      exact .pure (literalDatum_renamed ..).symm
    have other : ∀ text line, operand ≠ .number text line := fun text line h => number ⟨text, line, h⟩
    rw [value_negate other, value_negate other]
    refine .bind (value_alike inj s w expected operand) fun d => ?_
    split
    · refine .counted fun o => ?_
      rw [Datum.renamedAnswer_arith]
      exact Datum.arith_renamed inj .neg _ d .null
    · exact .lift rfl
  | .binary op left right line => by
    cases plain : op.isLogical with
    | false =>
      rw [value_binary plain, value_binary plain]
      exact .bind (value_alike inj s w _ left) fun a =>
        .bind (value_alike inj s w _ right) fun b => applied_alike inj ..
    | true =>
      have second : Alike f (Datum.renamed f)
          (right.value s w (some .boolean) >>= fun b =>
            pure (truth (typeOf s (some .boolean) right) b))
          (right.value s (w.renamed f) (some .boolean) >>= fun b =>
            pure (truth (typeOf s (some .boolean) right) b)) :=
        .bind (value_alike inj s w (some .boolean) right) fun b => .pure (truth_renamed ..)
      cases op with
      | and =>
        rw [value, value]
        refine .bind (value_alike inj s w (some .boolean) left) fun a => ?_
        dsimp only
        rw [truth_renamed, Datum.isTrue_renamed]
        split
        · exact second
        · exact .pure rfl
      | or =>
        rw [value, value]
        refine .bind (value_alike inj s w (some .boolean) left) fun a => ?_
        dsimp only
        rw [truth_renamed, Datum.isTrue_renamed]
        split
        · exact .pure rfl
        · exact second
      | _ => cases plain
  | .this _ | .method _ _ [] _ | .method _ _ (_ :: _ :: _) _ | .call _ _ _ => .lift rfl

theorem values_alike (inj : f.Injective) (s : Scope) (w : World) (expected : Option Ty) :
    ∀ items : List Expr, Alike f (List.map (Datum.renamed f)) (values s w expected items)
      (values s (w.renamed f) expected items)
  | [] => .pure rfl
  | e :: rest => by
    rw [values, values]
    exact .bind (value_alike inj s w expected e) fun d =>
      .bind (values_alike inj s w expected rest) fun ds => .pure rfl
end

end Expr

/-! ## Counting on -/

/-- A renaming of marks that takes the operations from a number on to operations in a row. -/
structure Renames (f : Nat → Nat) (n : Nat) : Prop where
  injective : f.Injective
  shift : ∀ j, f (n + j) = f n + j

namespace Renames

variable {f : Nat → Nat} {n c : Nat}

theorem id (n : Nat) : Renames id n := ⟨Function.injective_id, fun _ => rfl⟩

theorem apply_of_le (h : Renames f n) (le : n ≤ c) : f c = f n + (c - n) := by
  rw [← h.shift, Nat.add_sub_cancel' le]

theorem later (h : Renames f n) (le : n ≤ c) : Renames f c where
  injective := h.injective
  shift j := by
    rw [h.apply_of_le le, h.apply_of_le (Nat.le_trans le (Nat.le_add_right c j))]
    omega

/-- Earlier operations are renamed to earlier ones. -/
theorem apply_lt (h : Renames f n) {k : Nat} (early : k < n) : f k < f n := by
  rcases Nat.lt_or_ge (f k) (f n) with lt | ge
  · exact lt
  · have same : f k = f (n + (f k - f n)) := by
      rw [h.shift]
      omega
    have := h.injective same
    omega

end Renames

/-- A renaming that goes on from another place. -/
def moved (f : Nat → Nat) (c place : Nat) : Nat → Nat := fun k => if k < c then f k else place + (k - c)

section Moved

variable {f : Nat → Nat} {c place : Nat}

theorem moved_self : moved f c place c = place := by simp [moved]

theorem moved_of_lt {k : Nat} (early : k < c) : moved f c place k = f k := if_pos early

theorem Renames.moved (h : Renames f c) (le : f c ≤ place) : Renames (moved f c place) c where
  injective := by
    intro a b same
    unfold Covenant.moved at same
    split_ifs at same with ha hb hb
    · exact h.injective same
    · have := h.apply_lt ha
      omega
    · have := h.apply_lt hb
      omega
    · omega
  shift j := by
    rw [moved_self]
    unfold Covenant.moved
    rw [if_neg (by omega), Nat.add_sub_cancel_left]

end Moved

/-- From where a renaming was at a number of operations, another one goes on: it has renamed what there has
been alike, and it has taken no operation back. -/
structure Continues (f : Nat → Nat) (n : Nat) (g : Nat → Nat) (c : Nat) : Prop where
  first : Renames f n
  renames : Renames g c
  le : n ≤ c
  keeps : ∀ k, k < n → g k = f k
  ahead : f c ≤ g c

namespace Continues

variable {f g g' : Nat → Nat} {n c c' : Nat}

theorem refl (h : Renames f n) : Continues f n f n := ⟨h, h, Nat.le_refl n, fun _ _ => rfl, Nat.le_refl _⟩

theorem later (h : Continues f n g c) (le : c ≤ c') : Continues f n g c' where
  first := h.first
  renames := h.renames.later le
  le := Nat.le_trans h.le le
  keeps := h.keeps
  ahead := by
    rw [(h.first.later h.le).apply_of_le le, h.renames.apply_of_le le]
    exact Nat.add_le_add_right h.ahead _

theorem trans (h : Continues f n g c) (h' : Continues g c g' c') : Continues f n g' c' where
  first := h.first
  renames := h'.renames
  le := Nat.le_trans h.le h'.le
  keeps k hk := (h'.keeps k (Nat.lt_of_lt_of_le hk h.le)).trans (h.keeps k hk)
  ahead := Nat.le_trans (h.later h'.le).ahead h'.ahead

/-- Operations that the other side has not counted put it off. -/
theorem moved (h : Continues f n g c) {place : Nat} (le : g c ≤ place) :
    Continues f n (moved g c place) c where
  first := h.first
  renames := h.renames.moved le
  le := h.le
  keeps k hk := (moved_of_lt (Nat.lt_of_lt_of_le hk h.le)).trans (h.keeps k hk)
  ahead := by
    rw [moved_self]
    exact Nat.le_trans h.ahead le

end Continues

/-- Only the marks of operations before a number count for what a datum, or something made of data, is. -/
def Early {α : Type} (rename : (Nat → Nat) → α → α) (n : Nat) (a : α) : Prop :=
  ∀ f g : Nat → Nat, (∀ k, k < n → f k = g k) → rename f a = rename g a

theorem early_iff {n : Nat} {d : Datum} : Early Datum.renamed n d ↔ d.Before n := by
  constructor
  · intro h
    refine Datum.before_of_renamed fun f _ keeps => ?_
    rw [h f id keeps, Datum.renamed_id]
  · exact fun h f g same => Datum.renamed_congr fun k hk => same k (h k hk)

/-- A result is another one with its marks renamed, by a renaming that goes on from another one. -/
def Echoes {α : Type} (rename : (Nat → Nat) → α → α) (f : Nat → Nat) (n : Nat)
    (r r' : Except Failure (α × Nat)) : Prop :=
  match r with
  | .ok (a, c) => Early rename c a ∧ ∃ g, Continues f n g c ∧ r' = .ok (rename g a, g c)
  | .error failure => ∃ g : Nat → Nat, g.Injective ∧ r' = .error (failure.renamed g)

/-- One evaluation after another, from where the renaming of the first one has got to. -/
theorem Echoes.bind {α β : Type} {rename : (Nat → Nat) → α → α} {rename' : (Nat → Nat) → β → β}
    {f : Nat → Nat} {n c k : Nat} {v v' : StateT Nat (Except Failure) α}
    {rest rest' : α → StateT Nat (Except Failure) β} (first : Echoes rename f n (v.run c) (v'.run k))
    (next : ∀ a c' g, v.run c = .ok (a, c') → Early rename c' a → Continues f n g c' →
      Echoes rename' g c' ((rest a).run c') ((rest' (rename g a)).run (g c'))) :
    Echoes rename' f n ((v >>= rest).run c) ((v' >>= rest').run k) := by
  rw [StateT.run_bind, StateT.run_bind]
  cases run : v.run c with
  | error failure =>
    rw [run] at first
    obtain ⟨g, inj, run'⟩ := first
    rw [run']
    exact ⟨g, inj, rfl⟩
  | ok result =>
    obtain ⟨a, c'⟩ := result
    rw [run] at first
    obtain ⟨early, g, goes, run'⟩ := first
    have after := next a c' g run early goes
    rw [run', ok_bind, ok_bind]
    dsimp only
    cases made : (rest a).run c' with
    | error failure =>
      rw [made] at after
      exact after
    | ok result =>
      obtain ⟨b, c''⟩ := result
      rw [made] at after
      obtain ⟨early', g', goes', run''⟩ := after
      exact ⟨early', g', goes.trans goes', run''⟩

namespace Evaluation

/-- What is made of a datum in a world does not depend on marks. -/
def Uniform (v : World → Datum → Evaluation Datum) : Prop :=
  ∀ f : Nat → Nat, f.Injective → ∀ w d,
    Alike f (Datum.renamed f) (v w d) (v (w.renamed f) (d.renamed f))

variable {v : World → Datum → Evaluation Datum} {w : World} {a d : Datum} {f g : Nat → Nat} {n c c' : Nat}

/-- All marks that are made are those of operations up to the end. -/
theorem Uniform.before (uniform : Uniform v) (hw : w.Before n) (ha : a.Before n)
    (h : (v w a).run n = .ok (d, c)) : n ≤ c ∧ d.Before c := by
  have le : n ≤ c := ((uniform id Function.injective_id w a).ok n n d c h).1
  refine ⟨le, Datum.before_of_renamed fun f inj keeps => ?_⟩
  have same : w.renamed f = w := hw.renamed_eq_self fun k hk => keeps k (Nat.lt_of_lt_of_le hk le)
  have same' : a.renamed f = a := ha.renamed fun k hk => keeps k (Nat.lt_of_lt_of_le hk le)
  have run := ((uniform f inj w a).ok n n d c h).2 fun j hj => keeps _ hj
  rw [same, same', h] at run
  exact (Prod.mk.inj (Except.ok.inj run)).1.symm

theorem Uniform.echoes (uniform : Uniform v) (hw : w.Before n) (ha : a.Before n) (h : Continues f n g c) :
    Echoes Datum.renamed g c ((v w a).run c) ((v (w.renamed f) (a.renamed f)).run (g c)) := by
  have same : w.renamed f = w.renamed g := hw.renamed_congr fun k hk => (h.keeps k hk).symm
  have same' : a.renamed f = a.renamed g := Datum.renamed_congr fun k hk => (h.keeps k (ha k hk)).symm
  have alike := uniform g h.renames.injective w a
  rw [same, same']
  cases run : (v w a).run c with
  | error failure => exact ⟨g, h.renames.injective, alike.error c (g c) failure run h.renames.shift⟩
  | ok result =>
    obtain ⟨d, c'⟩ := result
    obtain ⟨le, before⟩ := uniform.before (hw.mono h.le) (ha.mono h.le) run
    refine ⟨early_iff.mpr before, g, (Continues.refl h.renames).later le, ?_⟩
    rw [h.renames.apply_of_le le]
    exact (alike.ok c (g c) d c' run).2 fun j _ => h.renames.shift j

end Evaluation

theorem Expr.uniform_value (s : Scope) (expected : Option Ty) (e : Expr) :
    Evaluation.Uniform fun w _ => e.value s w expected := fun _ inj w _ => e.value_alike inj s w expected

end Covenant
