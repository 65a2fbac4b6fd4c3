import Covenant.Proofs.Emitter.Operations
/-!
The code of an expression is emitted as that of the term or the action which it turns out to be, whatever is expected
of it and whatever has been inferred before.

* `Outline.Stored`: what is emitted to store something into an expression;
* `Outline.emitted`: what is emitted for each expression of a tree, and to store something into it.
-/

namespace Covenant

namespace Outline

open Covenant.Expr Emits

/-- The code that stores into an expression at a position is that of the assignment to the target which it stands for,
if what is stored is emitted as what belongs at the end of a path from there. -/
def Stored (o : Outline) (position : Position) (e : Expr) : Prop :=
  ∀ σ s, σ.scope = s → ∀ line (emitted : Ty → Emission Unit)
    (value : Target → Except CompileError (List PathStep × Term)),
    (∀ target, e.targeted s line = .ok target → ∀ σ', σ'.scope = s →
      o.Emits s σ' (emitted target.type) (value target) fun v => ((), σ'.along target.read v.2 v.1)) →
    o.Emits s σ (Emission.store position line emitted e) (e.targeted s line >>= Target.assigned value)
      fun a => ((), σ.put (.effect a))

variable {o : Outline} {s : Scope} {σ : Emitter} {position : Position} {word : String} {line : Nat}
  {object index argument : Expr}

/-! ## Targets -/

theorem emits_root {root : Root} {type : Ty} {i : Instruction String} {emitted : Ty → Emission Unit}
    {value : Target → Except CompileError (List PathStep × Term)} (store : root.store = .op i)
    (each : o.Emits s σ (emitted type) (value (.ofRoot root type)) fun v => ((), σ.along root.read v.2 v.1)) :
    o.Emits s σ (do emitted type; Emission.emit i) (Target.assigned value (.ofRoot root type))
      fun a => ((), σ.put (.effect a)) :=
  each.bind fun v _ => emit (store ▸ Emitter.along_store root v.1 v.2)

theorem stored_name : o.Stored position (.name word line) := by
  rintro σ _ rfl own emitted value each
  rw [targeted] at each
  rw [Emission.store, targeted]
  refine get_bind fun types => ?_
  dsimp only at each ⊢
  by_cases context : σ.scope.isContext (.name word line) = true
  · rw [if_pos context, if_pos context]
    exact .fail _ _
  · rw [if_neg context] at each
    rw [if_neg context, if_neg context, bind_assoc]
    refine lift_bind fun slot hs => emits_root rfl ?_
    rw [hs] at each
    exact each _ rfl σ rfl

theorem stored_field {own : Nat} : o.Stored position (.member (.this own) word line) := by
  rintro σ _ rfl own emitted value each
  rw [targeted] at each
  rw [Emission.store, targeted, bind_assoc]
  refine get_bind fun types => lift_bind fun type ht => emits_root rfl ?_
  rw [ht] at each
  exact each _ rfl σ rfl

section Parts

variable {whole : Target} {emitted : Ty → Emission Unit} {value : Target → Except CompileError (List PathStep × Term)}

theorem emits_withMember (same : σ.scope = s)
    (known : ∀ expected, object.typed s expected = .ok (.value whole.read whole.type))
    (ho : o.Emitted (position ++ [0]) object)
    (each : ∀ name fields type, whole.type = .struct name fields → fields.lookup word = some type →
      ∀ σ', σ'.scope = s → o.Emits s σ' (emitted type) (value (whole.step (.member word) type))
        fun v => ((), σ'.along (.member whole.read word) v.2 v.1)) :
    o.Emits s σ (Emission.withMember object word line (fun type => Emission.expr (position ++ [0]) type object) emitted
        whole.type)
      (whole.throughMember word line value) fun v => ((), σ.along whole.read v.2 v.1) := by
  unfold Target.throughMember
  cases struct : whole.type with
  | struct name fields =>
    simp only [Emission.withMember]
    cases found : fields.lookup word with
    | some type =>
      rw [struct] at known
      refine value_known (ho σ s same _) (known _) ?_
      refine (each _ _ _ struct found (σ.term whole.read) same).bind fun v _ => emit ?_
      exact Emitter.along_member whole.read v.2 word v.1
    | none => exact .fail _ _
  | _ => exact .fail _ _

theorem emits_withElement (same : σ.scope = s)
    (known : ∀ expected, object.typed s expected = .ok (.value whole.read whole.type))
    (ho : o.Emitted (position ++ [0]) object) (hi : o.Emitted (position ++ [1]) index)
    (each : ∀ element p, whole.type = .array element →
      index.typed s (some .u32) >>= Typed.place index.line line = .ok p →
      ∀ σ', σ'.scope = s → o.Emits s σ' (emitted element) (value (whole.step (.element p) element))
        fun v => ((), σ'.along (.element whole.read p) v.2 v.1)) :
    o.Emits s σ (Emission.withElement object index line (fun type => Emission.expr (position ++ [0]) type object)
        (fun type => Emission.expr (position ++ [1]) type index) emitted whole.type)
      (whole.throughElement s index line value) fun v => ((), σ.along whole.read v.2 v.1) := by
  unfold Target.throughElement
  cases array : whole.type with
  | array element =>
    rw [array] at known
    refine value_known (ho σ s same _) (known _) (place_bind (hi (σ.term whole.read) s same _) fun p hp => ?_)
    refine (each _ _ array hp ((σ.term whole.read).term p) same).bind fun v _ => emit ?_
    exact Emitter.along_element whole.read p v.2 v.1
  | _ => exact .fail _ _

end Parts

theorem stored_member_of_ne (other : ∀ own, object ≠ .this own) (ho : o.Emitted (position ++ [0]) object)
    (stored : o.Stored (position ++ [0]) object) : o.Stored position (.member object word line) := by
  rintro σ _ rfl own emitted value each
  rw [Emission.store]
  · refine get_bind fun types => ?_
    dsimp only
    split
    next context =>
      rw [targeted, if_pos context]
      · exact .fail _ _
      · exact other
    next plain =>
      rw [assigned_member other plain]
      refine stored σ _ rfl own _ _ fun whole hw σ' same => ?_
      refine emits_withMember same (typed_of_targeted hw) ho fun name fields type struct found σ'' same' => ?_
      refine each (whole.step (.member word) type) ?_ σ'' same'
      rw [targeted, if_neg plain, hw, ok_bind, struct]
      · simp only [found]
        rfl
      · exact other
  · exact other

theorem stored_index (ho : o.Emitted (position ++ [0]) object) (stored : o.Stored (position ++ [0]) object)
    (hi : o.Emitted (position ++ [1]) index) : o.Stored position (.index object index line) := by
  intro σ s same own emitted value each
  rw [Emission.store_index, assigned_index]
  refine stored σ s same own _ _ fun whole hw σ' same => ?_
  refine emits_withElement same (typed_of_targeted hw) ho hi fun element p array hp σ'' same' => ?_
  refine each (whole.step (.element p) element) ?_ σ'' same'
  obtain ⟨r, hr, placed⟩ := bind_eq_ok.mp hp
  rw [targeted, hw, ok_bind, array]
  simp only [hr, ok_bind, placed]
  rfl

theorem stored_member (ho : o.Emitted (position ++ [0]) object) (stored : o.Stored (position ++ [0]) object) :
    o.Stored position (.member object word line) := by
  by_cases this : ∃ own, object = .this own
  · obtain ⟨own, rfl⟩ := this
    exact stored_field
  · exact stored_member_of_ne (fun own same => this ⟨own, same⟩) ho stored

/-! ## Methods -/

theorem emits_appended {target : Target} (same : σ.scope = s)
    (known : ∀ expected, object.typed s expected = .ok (.value target.read target.type))
    (ho : o.Emitted (position ++ [0]) object) (ha : o.Emitted (position ++ [1]) argument) :
    o.Emits s σ (Emission.appended object argument line (fun type => Emission.expr (position ++ [0]) type object)
        (fun type => Emission.expr (position ++ [1]) type argument) target.type)
      (target.appended s argument line) fun v => ((), σ.along target.read v.2 v.1) := by
  unfold Target.appended
  cases type : target.type with
  | array element =>
    rw [type] at known
    refine value_known (ho σ s same _) (known _) ?_
    refine valueOf_bind (ha (σ.term target.read) s same _) fun item _ => emit ?_
    simp only [Emitter.along, Emitter.term, Term.codeAlong, Term.labelsAlong, Term.followedAlong, Term.code,
      Term.labels, Term.followed, Emitter.wrote_wrote, Emitter.labels_wrote, List.append_nil, Nat.add_zero]
  | _ => exact .fail _ _

theorem emitted_push (ho : o.Emitted (position ++ [0]) object) (stored : o.Stored (position ++ [0]) object)
    (ha : o.Emitted (position ++ [1]) argument) : o.Emitted position (.method object "push" [argument] line) := by
  intro σ s same expected
  rw [Emission.expr, typed_push, if_neg (by decide), if_pos rfl]
  have assigned := stored σ s same line (Emission.appended object argument line
    (fun type => Emission.expr (position ++ [0]) type object)
    fun type => Emission.expr (position ++ [1]) type argument) (Target.appended s argument line)
    fun target ht σ' same => emits_appended same (typed_of_targeted ht) ho ha
  exact assigned.bind fun a _ => .pure rfl

theorem emitted_method_of_one (ho : o.Emitted (position ++ [0]) object) (stored : o.Stored (position ++ [0]) object)
    (ha : o.Emitted (position ++ [1]) argument) : o.Emitted position (.method object word [argument] line) := by
  by_cases searches : word = "indexOf" ∨ word = "includes"
  · exact emitted_search searches ho ha
  · by_cases push : word = "push"
    · subst push
      exact emitted_push ho stored ha
    · intro σ s same expected
      have other : ¬ (word = "indexOf" || word = "includes") = true := by
        rwa [Bool.or_eq_true, decide_eq_true_iff, decide_eq_true_iff]
      rw [Emission.expr, typed, if_neg other, if_neg other, if_neg push, if_neg push]
      exact .fail _ _

theorem emitted_method_of_ne {arguments : List Expr} (other : ∀ a, arguments ≠ [a]) :
    o.Emitted position (.method object word arguments line) := by
  intro σ s same expected
  rw [Emission.expr, typed]
  · split
    next => exact .fail _ _
    next => exact .fail _ _
  · exact other
  · exact other

theorem emitted_method {arguments : List Expr} (ho : o.Emitted (position ++ [0]) object)
    (stored : o.Stored (position ++ [0]) object)
    (each : ∀ k e, arguments[k]? = some e → o.Emitted (position ++ [k + 1]) e) :
    o.Emitted position (.method object word arguments line) := by
  by_cases one : ∃ a, arguments = [a]
  · obtain ⟨a, rfl⟩ := one
    exact emitted_method_of_one ho stored (each 0 a rfl)
  · exact emitted_method_of_ne fun a same => one ⟨a, same⟩

/-! ## All expressions -/

mutual
/-- The code of each expression of a tree, and the code that stores into it, is emitted as what it turns out to be. -/
theorem emitted (o : Outline) : ∀ e position, o.node position = some e → o.Emitted position e ∧ o.Stored position e
  | .number _ _, _, _ => ⟨emitted_number, fun _ _ _ _ _ _ _ => .fail _ _⟩
  | .string _ _, _, _ => ⟨emitted_string, fun _ _ _ _ _ _ _ => .fail _ _⟩
  | .boolean _ _, _, _ => ⟨emitted_boolean, fun _ _ _ _ _ _ _ => .fail _ _⟩
  | .array items _, position, here =>
    have nodes : ∀ k e, items[k]? = some e → o.node (position ++ [k]) = some e := fun _ _ he => o.part here he
    ⟨emitted_array (emittedEach o items (fun k => position ++ [k]) nodes) (nodes 0), fun _ _ _ _ _ _ _ => .fail _ _⟩
  | .name _ _, _, _ => ⟨emitted_name, stored_name⟩
  | .this _, _, _ => ⟨emitted_this, fun _ _ _ _ _ _ _ => .fail _ _⟩
  | .member object _ _, _, here =>
    have ho := emitted o object _ (o.part here (i := 0) rfl)
    ⟨emitted_member ho.1, stored_member ho.1 ho.2⟩
  | .index object place _, _, here =>
    have ho := emitted o object _ (o.part here (i := 0) rfl)
    have hi := emitted o place _ (o.part here (i := 1) rfl)
    ⟨emitted_index ho.1 hi.1, stored_index ho.1 ho.2 hi.1⟩
  | .method object _ arguments _, position, here =>
    have ho := emitted o object _ (o.part here (i := 0) rfl)
    have each := emittedEach o arguments (fun k => position ++ [k + 1]) fun k _ he => o.part here (i := k + 1) he
    ⟨emitted_method ho.1 ho.2 each, fun _ _ _ _ _ _ _ => .fail _ _⟩
  | .call _ arguments _, position, here =>
    have each := emittedEach o arguments (fun k => position ++ [k]) fun _ _ he => o.part here he
    ⟨emitted_call each, fun _ _ _ _ _ _ _ => .fail _ _⟩
  | .unary .not operand _, _, here =>
    ⟨emitted_not (emitted o operand _ (o.part here (i := 0) rfl)).1, fun _ _ _ _ _ _ _ => .fail _ _⟩
  | .unary .negate operand _, _, here =>
    ⟨emitted_negate (emitted o operand _ (o.part here (i := 0) rfl)).1, fun _ _ _ _ _ _ _ => .fail _ _⟩
  | .binary _ left right _, _, here =>
    have hereLeft := o.part here (i := 0) rfl
    have hereRight := o.part here (i := 1) rfl
    ⟨emitted_binary hereLeft hereRight (emitted o left _ hereLeft).1 (emitted o right _ hereRight).1,
      fun _ _ _ _ _ _ _ => .fail _ _⟩

theorem emittedEach (o : Outline) : ∀ (items : List Expr) (place : Nat → Position),
    (∀ k e, items[k]? = some e → o.node (place k) = some e) → ∀ k e, items[k]? = some e → o.Emitted (place k) e
  | [], _, _, _, _, he => nomatch he
  | first :: _, place, nodes, 0, _, he => Option.some.inj he ▸ (emitted o first (place 0) (nodes 0 first rfl)).1
  | _ :: rest, place, nodes, k + 1, e, he =>
    emittedEach o rest (fun k => place (k + 1)) (fun k e he => nodes (k + 1) e he) k e he
end

end Outline

end Covenant
