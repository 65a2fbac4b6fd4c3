import Covenant.Proofs.Emitter.Outline
/-!
The code of expressions is emitted as that of the terms which they turn out to be.

* `Outline.Emitted`: what is emitted for an expression, whatever is expected of it and was inferred before;
* `emitted_array`, `emitted_member` and the like: it is emitted for an expression when it is for its parts.
-/

namespace Covenant

namespace Outline

open Covenant.Expr Emits

/-- The code of an expression at a position is that of what it turns out to be. -/
def Emitted (o : Outline) (position : Position) (e : Expr) : Prop :=
  ∀ σ s, σ.scope = s → ∀ expected,
    o.Emits s σ (Emission.expr position expected e) (e.typed s expected) fun r => (r.type?, σ.put r)

variable {I : TypeTable → Prop} {o : Outline} {s : Scope} {σ : Emitter} {position : Position} {expected : Option Ty}
  {word : String} {line : Nat} {object index argument operand : Expr} {items : List Expr} {γ δ : Type}

/-! ## Literals and names -/

theorem emitted_this : o.Emitted position (.this line) := by
  intro σ s same expected
  rw [Emission.expr, typed]
  exact .fail _ _

theorem emits_number (negative : Bool) (text : String) :
    Covenant.Emits I I σ (Emission.number expected negative text line) (literal expected negative text line)
      fun r => (r.type?, σ.put r) := by
  suffices h : Covenant.Emits I I σ (Emission.number expected negative text line)
      (literal expected negative text line >>= Pure.pure) fun r => (r.type?, σ.put r) by rwa [bind_pure] at h
  refine lift_bind fun r hr => emit_bind ?_
  rw [literal_eq_literalOf] at hr
  obtain ⟨rfl, -, -⟩ := literalOf_eq_ok hr
  exact .pure rfl

theorem emitted_number {text : String} : o.Emitted position (.number text line) := by
  intro σ s same expected
  rw [Emission.expr, typed]
  exact emits_number false text

theorem emitted_string {value : String} : o.Emitted position (.string value line) :=
  fun _ _ _ _ => emit_bind (.pure rfl)

theorem emitted_boolean {value : Bool} : o.Emitted position (.boolean value line) :=
  fun _ _ _ _ => emit_bind (.pure rfl)

theorem emitted_name : o.Emitted position (.name word line) := by
  rintro σ _ rfl expected
  rw [Emission.expr, typed]
  refine get_bind fun types => ?_
  dsimp only
  split
  next => exact .fail _ _
  next => exact lift_bind fun slot _ => emit_bind (.pure rfl)

theorem emitted_field {own : Nat} : o.Emitted position (.member (.this own) word line) := by
  rintro σ _ rfl expected
  rw [Emission.expr, typed]
  exact get_bind fun types => lift_bind fun type _ => emit_bind (.pure rfl)

/-! ## Members -/

/-- A reference that is followed from the term of an expression is noted if it is in a field of the receiver. -/
theorem followField_bind {t : Term} {type : Ty} {f : Unit → Emission γ} {z : Except CompileError δ}
    {out : δ → γ × Emitter} (ho : object.typed s none = .ok (.value t type)) (contract : String)
    (next : Covenant.Emits I I (σ.wrote (t.code σ.labels) t.labels (Term.referenced contract t).followed) (f ()) z
      out) :
    Covenant.Emits I I (σ.term t) (Emission.followField object >>= f) z out := by
  by_cases field : ∃ name, t = .field name
  · obtain ⟨name, rfl⟩ := field
    obtain ⟨own, line, rfl⟩ := exists_of_field ho
    refine follow_bind ?_
    rw [Emitter.term, Emitter.wrote_wrote, List.append_nil]
    exact next
  · have followed : (Term.referenced contract t).followed = t.followed := by
      rw [Term.followed]
      exact fun name same => field ⟨name, same⟩
    have nothing : Emission.followField object = Pure.pure () := by
      unfold Emission.followField
      split
      next own name line =>
        rw [typed] at ho
        obtain ⟨own, -, same⟩ := bind_eq_ok.mp ho
        cases same
        exact absurd ⟨name, rfl⟩ field
      next => rfl
    rw [nothing, pure_bind]
    rw [followed] at next
    exact next

theorem emits_memberOf {t : Term} {type : Ty} (same : σ.scope = s) (ho : object.typed s none = .ok (.value t type)) :
    Covenant.Emits I I (σ.term t) (Emission.memberOf object type word line) (memberOf s t type word line)
      fun r => (r.type?, σ.put r) := by
  cases type with
  | array element =>
    simp only [Emission.memberOf, memberOf]
    split
    next => exact unary (fun _ => rfl) rfl rfl
    next => exact .fail _ _
  | primitive p =>
    by_cases text : p = .string
    · subst text
      simp only [Emission.memberOf, memberOf]
      split
      next => exact unary (fun _ => rfl) rfl rfl
      next => exact .fail _ _
    · cases p <;> first | exact absurd rfl text | exact .fail _ _
  | publicKey => exact .fail _ _
  | reference contract =>
    subst same
    simp only [Emission.memberOf, memberOf]
    refine get_bind fun types => lift_bind fun record _ => ?_
    cases record.type.field? word with
    | none => exact .fail _ _
    | some field =>
      refine followField_bind ho contract (emit_bind (emit_bind (value ?_)))
      simp only [Emitter.term, Term.code, Term.labels, Term.followed, Emitter.wrote_wrote, List.append_nil,
        Nat.add_zero]
  | struct name fields =>
    simp only [Emission.memberOf, memberOf]
    cases fields.lookup word with
    | none => exact .fail _ _
    | some field => exact unary (fun _ => rfl) rfl rfl

/-! ## Array literals -/

theorem emits_exprs (element : Ty) (line : Nat) {i : Nat}
    (each : ∀ k e, items[k]? = some e → o.Emitted (position ++ [i + k]) e) (same : σ.scope = s) :
    o.Emits s σ (Emission.exprs position i element line items) (typedItems s element line items)
      fun ts => ((), σ.terms ts) := by
  induction items generalizing i σ with
  | nil => exact .pure (congrArg ((), ·) Emitter.wrote_nil)
  | cons e rest ih =>
    rw [Emission.exprs_cons, typedItems]
    refine valueOf_bind (each 0 e rfl σ s same (some element)) fun t _ => ?_
    have next := ih (i := i + 1) (fun k e he => by
      rw [Nat.add_assoc, Nat.add_comm 1 k]
      exact each (k + 1) e he) (show (σ.term t).scope = s from same)
    refine next.map fun ts => ?_
    simp only [Emitter.term, Emitter.terms, Term.codeOfItems, Term.labelsOfItems, Term.followedByItems,
      Emitter.wrote_wrote, Emitter.labels_wrote]

theorem emitted_array (each : ∀ k e, items[k]? = some e → o.Emitted (position ++ [k]) e)
    (node : ∀ e, items[0]? = some e → o.node (position ++ [0]) = some e) :
    o.Emitted position (.array items line) := by
  intro σ s same expected
  have whole : ∀ {ts : List Term} {element : Ty}, ts.length = items.length →
      o.Emits s (σ.terms ts) (do Emission.emit (.arrayNew items.length); return some (.array element))
        (.ok (.value (.array ts) (.array element))) fun r => (r.type?, σ.put r) := by
    intro ts element length
    refine emit_bind (value ?_)
    simp only [Emitter.term, Emitter.terms, Term.code, Term.labels, Term.followed, Emitter.wrote_wrote, length,
      List.append_nil, Nat.add_zero]
  have length : ∀ {element items ts}, typedItems s element line items = .ok ts → ts.length = items.length :=
    fun h => (items_of_typedItems (fun e _ => (derives s e).1) h).1.symm
  by_cases array : ∃ element, expected = some (.array element)
  · obtain ⟨element, rfl⟩ := array
    rw [Emission.expr, typed, pure_bind]
    have all := emits_exprs element line (i := 0) (by simpa only [Nat.zero_add] using each) same
    exact all.bind fun ts hts => whole (length hts)
  · have other : ∀ element, expected = some (.array element) → False := fun element h => array ⟨element, h⟩
    cases items with
    | nil =>
      rw [Emission.expr.eq_5 _ _ _ other, typed.eq_5 _ _ _ other]
      exact fail_bind _ _
    | cons first rest =>
      rw [Emission.expr.eq_6 _ _ _ _ _ other, typed.eq_6 _ _ _ _ _ other]
      have first_ := fun σ (same : σ.scope = s) => each 0 first rfl σ s same none
      refine infer_value_bind (node first rfl) same first_ fun t element known σ' ahead => ?_
      simp only [Emission.exprs_cons, bind_assoc]
      -- the first item, which gave the others their type, is checked like them
      refine valueOf_known (each 0 first rfl σ' s (ahead.scope same) (some element)) (found s first known) ?_
      rw [ahead.term]
      have others := emits_exprs element line (i := 1) (fun k e he => by
        rw [Nat.add_comm 1 k]
        exact each (k + 1) e he) (show (σ.term t).scope = s from same)
      refine others.bind fun ts hts => ?_
      have append : (σ.term t).terms ts = σ.terms (t :: ts) := by
        simp only [Emitter.term, Emitter.terms, Term.codeOfItems, Term.labelsOfItems, Term.followedByItems,
          Emitter.wrote_wrote, Emitter.labels_wrote]
      rw [append]
      exact whole (congrArg (· + 1) (length hts))

/-! ## Expressions with a value in front -/

theorem emitted_member_of_ne (other : ∀ own, object ≠ .this own) (ho : o.Emitted (position ++ [0]) object) :
    o.Emitted position (.member object word line) := by
  rintro σ s rfl expected
  rw [Emission.expr, typed]
  · refine get_bind fun types => ?_
    dsimp only
    split
    next =>
      split
      next => exact emit_bind (.pure rfl)
      next => exact .fail _ _
    next => exact value_bind (ho σ _ rfl none) fun t type known => emits_memberOf rfl known
  · exact other
  · exact other

theorem emitted_index (ho : o.Emitted (position ++ [0]) object) (hi : o.Emitted (position ++ [1]) index) :
    o.Emitted position (.index object index line) := by
  intro σ s same expected
  rw [Emission.expr, typed]
  refine value_bind (ho σ s same none) fun t type _ => ?_
  cases type with
  | array element => exact place_bind (hi (σ.term t) s same (some .u32)) fun p _ => binary (fun _ => rfl) rfl rfl
  | _ => exact .fail _ _

theorem emitted_search (searches : word = "indexOf" ∨ word = "includes") (ho : o.Emitted (position ++ [0]) object)
    (ha : o.Emitted (position ++ [1]) argument) : o.Emitted position (.method object word [argument] line) := by
  intro σ s same expected
  rw [Emission.expr, typed]
  simp only [searches, Bool.or_eq_true, decide_eq_true_iff, if_true]
  refine value_bind (ho σ s same none) fun t type _ => ?_
  cases type with
  | array element =>
    refine valueOf_bind (ha (σ.term t) s same (some element)) fun target _ => ?_
    split
    next => exact binary (fun _ => rfl) rfl rfl
    next => exact binary (fun _ => rfl) rfl rfl
  | _ => exact .fail _ _

theorem emitted_member (ho : o.Emitted (position ++ [0]) object) : o.Emitted position (.member object word line) := by
  by_cases this : ∃ own, object = .this own
  · obtain ⟨own, rfl⟩ := this
    exact emitted_field
  · exact emitted_member_of_ne (fun own same => this ⟨own, same⟩) ho

theorem emitted_call_of_one (ha : o.Emitted (position ++ [0]) argument) :
    o.Emitted position (.call word [argument] line) := by
  intro σ s same expected
  rw [Emission.expr, typed]
  split
  next =>
    refine valueOf_bind (ha σ s same (some .string)) fun t _ => emit_bind (.pure ?_)
    simp only [Emitter.term, Emitter.put, Typed.type?, Typed.code, Typed.labels, Typed.followed, Action.code,
      Action.labels, Action.followed, Emitter.wrote_wrote, List.append_nil, Nat.add_zero]
  next => exact .fail _ _

theorem emitted_not (ho : o.Emitted (position ++ [0]) operand) : o.Emitted position (.unary .not operand line) := by
  intro σ s same expected
  rw [Emission.expr, typed]
  exact condition_bind (ho σ s same (some .boolean)) fun t => unary (fun _ => rfl) rfl rfl

theorem emitted_negative {text : String} {own : Nat} :
    o.Emitted position (.unary .negate (.number text own) line) := by
  intro σ s same expected
  rw [Emission.expr, typed]
  exact emits_number true text

theorem emitted_negate_of_ne (other : ∀ text own, operand ≠ .number text own)
    (ho : o.Emitted (position ++ [0]) operand) : o.Emitted position (.unary .negate operand line) := by
  intro σ s same expected
  rw [Emission.expr, typed]
  · refine value_bind (ho σ s same expected) fun t type _ => ?_
    cases type with
    | primitive p =>
      dsimp only
      split
      next => exact unary (fun _ => rfl) rfl rfl
      next => exact .fail _ _
    | _ => exact .fail _ _
  · exact other
  · exact other

theorem emitted_call_of_ne {arguments : List Expr} (other : ∀ a, arguments ≠ [a]) :
    o.Emitted position (.call word arguments line) := by
  intro σ s same expected
  rw [Emission.expr, typed]
  · split
    next => exact .fail _ _
    next => exact .fail _ _
  · exact other
  · exact other

theorem emitted_call {arguments : List Expr} (each : ∀ k e, arguments[k]? = some e → o.Emitted (position ++ [k]) e) :
    o.Emitted position (.call word arguments line) := by
  by_cases one : ∃ a, arguments = [a]
  · obtain ⟨a, rfl⟩ := one
    exact emitted_call_of_one (each 0 a rfl)
  · exact emitted_call_of_ne fun a same => one ⟨a, same⟩

theorem emitted_negate (ho : o.Emitted (position ++ [0]) operand) :
    o.Emitted position (.unary .negate operand line) := by
  by_cases number : ∃ text own, operand = .number text own
  · obtain ⟨text, own, rfl⟩ := number
    exact emitted_negative
  · exact emitted_negate_of_ne (fun text own same => number ⟨text, own, same⟩) ho

end Outline

end Covenant
