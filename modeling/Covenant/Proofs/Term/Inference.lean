import Covenant.Proofs.Term.Elaboration
/-!
What is found out about an expression of which nothing is expected.

* `typed_found`: its type, when it is expected then, gives the same term;
* `typed_effect`: an expression without a value has none whatever is expected;
* `typed_of_targeted`: what can be assigned to can be read;
* `typed_push`, `assigned_member`, `assigned_index`: what is stored into a part of a whole is stored into the whole.
-/

namespace Covenant

theorem BinaryOp.level_of_comparison? {op : BinaryOp} {c : Comparison} (h : op.comparison? = some c) :
    ¬ 4 ≤ op.level := by
  cases op <;> first | decide | cases h

theorem BinaryOp.level_of_arith? {op : BinaryOp} {a : Arith} (h : op.arith? = some a) : 4 ≤ op.level := by
  cases op <;> first | decide | cases h

namespace Expr

variable {s : Scope} {expected : Option Ty} {t : Term} {type : Ty} {a : Action}

theorem literal_found {negative : Bool} {text : String} {line : Nat}
    (h : literal none negative text line = .ok (.value t type)) :
    literal (some type) negative text line = .ok (.value t type) := by
  rw [literal_eq_literalOf] at h ⊢
  obtain ⟨same, -, numeric⟩ := literalOf_eq_ok h
  obtain ⟨-, rfl⟩ := Typed.value.inj same
  have own : literalPrimitive (some (.primitive (literalPrimitive none text))) text = literalPrimitive none text :=
    if_pos numeric
  rw [own, h]

/-- The operands of an operation get the type of its result, if they get one from it. -/
theorem literalType_found {op : BinaryOp} {a b : Term} {type type' : Ty} {line : Nat}
    (plain : op.isLogical = false) (h : operation op type a b line = .ok (.value t type')) :
    literalType op (some type') = none ∨ literalType op (some type') = some type := by
  obtain ⟨t', u, same, operates⟩ := operates_of_operation plain h
  obtain ⟨rfl, rfl⟩ := Typed.value.inj same
  cases operates with
  | compare stands => exact .inl (if_neg (BinaryOp.level_of_comparison? stands))
  | join stands =>
    subst stands
    exact .inr rfl
  | @arith p _ stands numeric =>
    have wanted : (Ty.isNumeric (.primitive p) || decide (Ty.primitive p = .string)) = true := by
      rw [show Ty.isNumeric (.primitive p) = true from numeric, Bool.true_or]
    right
    rw [literalType, if_pos (BinaryOp.level_of_arith? stands), Option.filter_some, if_pos wanted]

/-- An expression without a value has none whatever is expected. -/
theorem typed_effect {e : Expr} (h : e.typed s none = .ok (.effect a)) (expected : Option Ty) :
    e.typed s expected = .ok (.effect a) := by
  rcases form_of_acts (acts_of_typed h) with ⟨object, argument, line, rfl⟩ | ⟨argument, line, rfl⟩
  · rw [typed] at h ⊢
    exact h
  · rw [typed] at h ⊢
    exact h

/-! ## Expressions of which what is expected does not matter -/

section Indifferent

variable {object : Expr} {word : String} {arguments : List Expr} {line : Nat}

theorem typed_member (expected expected' : Option Ty) :
    typed s expected (.member object word line) = typed s expected' (.member object word line) := by
  cases object <;> rfl

theorem typed_method (expected expected' : Option Ty) :
    typed s expected (.method object word arguments line) = typed s expected' (.method object word arguments line) := by
  match arguments with
  | [] | [_] | _ :: _ :: _ => rfl

theorem typed_call (expected expected' : Option Ty) :
    typed s expected (.call word arguments line) = typed s expected' (.call word arguments line) := by
  match arguments with
  | [] | [_] | _ :: _ :: _ => rfl

end Indifferent

/-! ## Operations -/

section Operations

variable {left right : Expr} {op : BinaryOp} {line : Nat}

theorem typed_logical (logical : op.isLogical = true) : typed s expected (.binary op left right line) = (do
    let a ← (← typed s (some .boolean) left).condition left.line line
    let b ← (← typed s (some .boolean) right).condition right.line line
    operation op .boolean a b line) := by
  rw [typed]
  exact if_pos logical

/-- An operation on a left operand that has a type of its own. -/
theorem typed_ofLeft (plain : op.isLogical = false) (own : left.isUntyped = false) :
    typed s expected (.binary op left right line) = (do
      match ← typed s none left with
      | .value a type =>
        let b ← (← typed s (some type) right).termOf type right.line line
        operation op type a b line
      | .effect _ =>
        if !right.isUntyped then let _ ← typed s none right
        CompileError.throw .noValue left.line) := by
  have logical : ¬ (op = .and || op = .or) = true := by
    change ¬ op.isLogical = true
    rw [plain]
    decide
  rw [typed, if_neg logical, own]
  rfl

/-- A literal number turns out to be its value. -/
theorem literal_of_untyped {e : Expr} {r : Typed} (untyped : e.isUntyped = true) (h : typed s expected e = .ok r) :
    ∃ p d type, r = .value (.literal p d) type := by
  have written : ∃ negative text line, literal expected negative text line = .ok r := by
    unfold isUntyped at untyped
    split at untyped
    next text line =>
      rw [typed] at h
      exact ⟨_, _, _, h⟩
    next text own line =>
      rw [typed] at h
      exact ⟨_, _, _, h⟩
    next => cases untyped
  obtain ⟨negative, text, line, written⟩ := written
  rw [literal_eq_literalOf] at written
  obtain ⟨rfl, -, -⟩ := literalOf_eq_ok written
  exact ⟨_, _, _, rfl⟩

/-- The term and the type of a second operand that has a type of its own. -/
def looked (s : Scope) (right : Expr) : Except CompileError (Option (Term × Ty)) :=
  if right.isUntyped then .ok none
  else do
    match ← typed s none right with
    | .value b type => return some (b, type)
    | .effect _ => return none

/-- An operation on a literal number and an operand without a type of its own. -/
def literalOperation (s : Scope) (expected : Option Ty) (op : BinaryOp) (left right : Expr) (line : Nat) :
    Except CompileError Typed := do
  let (a, own) ← (← typed s (literalType op expected) left).term left.line
  let type := (literalType op expected).getD own
  if type = own then
    let b ← (← typed s (some type) right).termOf type right.line line
    operation op type a b line
  else CompileError.throw (.mismatch type own) line

theorem literalOperation_effect {r : Typed} (h : typed s none right = .ok (.effect a)) :
    literalOperation s expected op left right line ≠ .ok r := by
  intro goes
  unfold literalOperation at goes
  obtain ⟨t, own, -, goes⟩ := Typed.value_of_term goes
  dsimp only at goes
  split at goes
  next =>
    obtain ⟨b, hb, -⟩ := Typed.value_of_termOf goes
    rw [typed_effect h] at hb
    cases hb
  next => cases goes

/-- An operation on a literal number and another operand. -/
theorem typed_untyped (plain : op.isLogical = false) (untyped : left.isUntyped = true) :
    typed s expected (.binary op left right line) = (do
      match ← looked s right with
      | some (b, type) =>
        let a ← (← typed s (some type) left).termOf type left.line line
        operation op type a b line
      | none => literalOperation s expected op left right line) := by
  have logical : ¬ (op = .and || op = .or) = true := by
    change ¬ op.isLogical = true
    rw [plain]
    decide
  rw [typed, if_neg logical, untyped, Bool.not_true, if_neg Bool.false_ne_true, looked]
  split
  next => rfl
  next =>
    cases typed s none right with
    | error e => rfl
    | ok r => cases r <;> rfl

end Operations

/-! ## Expressions that take their type from what is expected -/

section Found

variable {operand left right : Expr} {op : BinaryOp} {line : Nat}

/-- The type that is found for an expression gives the same term when it is expected. -/
def Found (s : Scope) (e : Expr) : Prop :=
  ∀ ⦃t type⦄, typed s none e = .ok (.value t type) → typed s (some type) e = .ok (.value t type)

theorem found_array {items : List Expr} (each : ∀ e ∈ items, Found s e) : Found s (.array items line) := by
  intro t type h
  cases items with
  | nil => cases h
  | cons first rest =>
    rw [typed] at h
    · obtain ⟨t, element, hf, h⟩ := Typed.value_of_term h
      obtain ⟨terms, hs, h⟩ := bind_eq_ok.mp h
      cases h
      -- the first item, which gave the others their type, is checked like them
      have again := each first List.mem_cons_self hf
      rw [typed, typedItems, again]
      simp only [ok_bind, Typed.termOf, Typed.term, if_true, hs]
      rfl
    · intro element never
      cases never

theorem found_negate (ho : Found s operand) : Found s (.unary .negate operand line) := by
  intro t type h
  by_cases number : ∃ text own, operand = .number text own
  · obtain ⟨text, own, rfl⟩ := number
    rw [typed] at h ⊢
    exact literal_found h
  · have other : ∀ text own, operand ≠ .number text own := fun text own same => number ⟨text, own, same⟩
    rw [typed] at h
    · obtain ⟨u, own, hf, h⟩ := Typed.value_of_term h
      dsimp only at h
      split at h
      next p =>
        split at h
        next signed =>
          cases h
          rw [typed]
          · rw [ho hf]
            simp only [ok_bind, Typed.term, signed, if_true]
            rfl
          · exact other
        next => cases h
      next => cases h
    · exact other

theorem found_binary (hl : Found s left) : Found s (.binary op left right line) := by
  intro t type h
  by_cases logical : op.isLogical = true
  · rwa [typed_logical logical] at h ⊢
  have plain := eq_false_of_ne_true logical
  by_cases untyped : left.isUntyped = true
  · cases hr : looked s right with
    | error e =>
      rw [typed_untyped plain untyped, hr] at h
      cases h
    | ok second =>
      cases second with
      | some operand => rwa [typed_untyped plain untyped, hr] at h ⊢
      | none =>
        -- the operands are literals: without an expectation the left one has its own type
        have own : literalType op none = none := by
          unfold literalType
          split <;> rfl
        rw [typed_untyped plain untyped, hr] at h ⊢
        simp only [ok_bind, literalOperation, own, Option.getD_none, if_true] at h ⊢
        obtain ⟨a, type', ha, h⟩ := Typed.value_of_term h
        obtain ⟨b, hb, h⟩ := Typed.value_of_termOf h
        rcases literalType_found plain h with none | some
        · simp only [none, ha, ok_bind, Typed.term, Option.getD_none, if_true, hb, Typed.termOf]
          exact h
        · simp only [some, hl ha, ok_bind, Typed.term, Option.getD_some, if_true, hb, Typed.termOf]
          exact h
  · have first := eq_false_of_ne_true untyped
    rwa [typed_ofLeft plain first] at h ⊢

mutual
/-- The type that is found for an expression gives the same term when it is expected. -/
theorem found (s : Scope) : ∀ e, Found s e
  | .number _ _ => fun _ _ h => literal_found h
  | .string _ _ | .boolean _ _ | .name _ _ | .this _ | .index _ _ _ | .unary .not _ _ => fun _ _ h => h
  | .array items _ => found_array (foundEach s items)
  | .member _ _ _ => fun _ _ h => (typed_member _ _).trans h
  | .method _ _ _ _ => fun _ _ h => (typed_method _ _).trans h
  | .call _ _ _ => fun _ _ h => (typed_call _ _).trans h
  | .unary .negate operand _ => found_negate (found s operand)
  | .binary _ left _ _ => found_binary (found s left)

theorem foundEach (s : Scope) : ∀ (items : List Expr), ∀ e ∈ items, Found s e
  | [], _, he => nomatch he
  | first :: rest, e, he => (List.mem_cons.mp he).elim (fun h => h ▸ found s first) (foundEach s rest e)
end

end Found

/-! ## What can be assigned to -/

section Targets

variable {object place : Expr} {word : String} {own : Nat}

/-- What is read where an expression is a target. -/
def ReadAsTarget (s : Scope) (e : Expr) : Prop :=
  ∀ ⦃line target⦄, targeted s line e = .ok target → ∀ expected, typed s expected e = .ok (.value target.read target.type)

theorem readAsTarget_name : ReadAsTarget s (.name word own) := by
  intro line target h expected
  rw [targeted] at h
  rw [typed]
  split at h
  next => cases h
  next plain =>
    rw [if_neg plain]
    unfold Scope.slot at h ⊢
    cases found : s.lookup? word with
    | none =>
      rw [found] at h
      cases h
    | some slot =>
      rw [found] at h
      cases h
      rfl

theorem readAsTarget_member (ho : ReadAsTarget s object) : ReadAsTarget s (.member object word own) := by
  intro line target h expected
  by_cases this : ∃ own, object = .this own
  · obtain ⟨own, rfl⟩ := this
    rw [targeted] at h
    rw [typed]
    unfold Scope.field at h ⊢
    cases found : s.this.field? word with
    | none =>
      rw [found] at h
      cases h
    | some type =>
      rw [found] at h
      cases h
      rfl
  · have other : ∀ own, object ≠ .this own := fun own same => this ⟨own, same⟩
    rw [targeted] at h
    · split at h
      next => cases h
      next plain =>
        obtain ⟨whole, hw, h⟩ := bind_eq_ok.mp h
        split at h
        next => cases h
        next name fields struct =>
          split at h
          next type found =>
            cases h
            rw [typed]
            · rw [if_neg plain, ho hw, struct]
              simp only [ok_bind, Typed.term, memberOf, found]
              rfl
            · exact other
          next => cases h
        next => cases h
    · exact other

theorem readAsTarget_index (ho : ReadAsTarget s object) : ReadAsTarget s (.index object place own) := by
  intro line target h expected
  rw [targeted] at h
  obtain ⟨whole, hw, h⟩ := bind_eq_ok.mp h
  split at h
  next element array =>
    obtain ⟨p, type, hp, integer, h⟩ := Typed.value_of_place h
    cases h
    rw [typed, ho hw, array]
    simp only [ok_bind, Typed.term, hp, Typed.place, integer, if_true]
    rfl
  next => cases h

theorem readAsTarget (s : Scope) : ∀ e, ReadAsTarget s e
  | .name _ _ => readAsTarget_name
  | .member object _ _ => readAsTarget_member (readAsTarget s object)
  | .index object _ _ => readAsTarget_index (readAsTarget s object)
  | .number _ _ | .string _ _ | .boolean _ _ | .array _ _ | .this _ | .method _ _ _ _ | .call _ _ _ | .unary _ _ _
  | .binary _ _ _ _ => nofun

/-- What can be assigned to can be read. -/
theorem typed_of_targeted {e : Expr} {line : Nat} {target : Target} (h : targeted s line e = .ok target)
    (expected : Option Ty) : typed s expected e = .ok (.value target.read target.type) :=
  readAsTarget s e h expected

end Targets

/-! ## Assignments

A value that is stored is given by the path to where it belongs in the target, and its term. -/

section Assignments

variable {object index argument : Expr} {word : String} {line : Nat}

namespace Target

/-- The assignment to a target of what is stored there. -/
def assigned (value : Target → Except CompileError (List PathStep × Term)) (target : Target) :
    Except CompileError Action := do
  let (path, t) ← value target
  return .assign target.root (target.path ++ path) t

/-- What is stored into an array to put an item after it. -/
def appended (s : Scope) (item : Expr) (line : Nat) (target : Target) : Except CompileError (List PathStep × Term) :=
  match target.type with
  | .array element => do
    let t ← (← item.typed s (some element)).termOf element item.line line
    return ([], .appended target.read t)
  | _ => CompileError.throw (.arraysOnly "push") line

/-- What is stored into a struct to store something into a field of it. -/
def throughMember (word : String) (line : Nat) (value : Target → Except CompileError (List PathStep × Term))
    (whole : Target) : Except CompileError (List PathStep × Term) :=
  match whole.type with
  | .reference contract => CompileError.throw (.referencedTarget contract) line
  | .struct _ fields =>
    match fields.lookup word with
    | some type => do
      let (path, t) ← value (whole.step (.member word) type)
      return (.member word :: path, t)
    | none => CompileError.throw (.unknownField word) line
  | type => CompileError.throw (.noFields type) line

/-- What is stored into an array to store something into an item of it. -/
def throughElement (s : Scope) (index : Expr) (line : Nat)
    (value : Target → Except CompileError (List PathStep × Term)) (whole : Target) :
    Except CompileError (List PathStep × Term) :=
  match whole.type with
  | .array element => do
    let p ← (← index.typed s (some .u32)).place index.line line
    let (path, t) ← value (whole.step (.element p) element)
    return (.element p :: path, t)
  | type => CompileError.throw (.notArray type) line

end Target

theorem typed_push : typed s expected (.method object "push" [argument] line) = (do
    let a ← targeted s line object >>= Target.assigned (Target.appended s argument line)
    return .effect a) := by
  rw [typed, if_neg (by decide), if_pos rfl, bind_assoc]
  refine bind_congr fun target => ?_
  unfold Target.assigned Target.appended
  cases target.type with
  | array element =>
    simp only [bind_assoc, pure_bind, List.append_nil]
  | _ => rfl

theorem assigned_member {value : Target → Except CompileError (List PathStep × Term)}
    (other : ∀ own, object ≠ .this own) (plain : ¬ s.isContext object = true) {own : Nat} :
    targeted s line (.member object word own) >>= Target.assigned value =
      targeted s line object >>= Target.assigned (Target.throughMember word line value) := by
  rw [targeted, if_neg plain, bind_assoc]
  · refine bind_congr fun whole => ?_
    unfold Target.assigned Target.throughMember
    cases whole.type with
    | struct name fields =>
      dsimp only
      cases fields.lookup word with
      | some type => simp only [pure_bind, bind_assoc, Target.step, List.append_assoc, List.singleton_append]
      | none => rfl
    | _ => rfl
  · exact other

theorem assigned_index {value : Target → Except CompileError (List PathStep × Term)} {own : Nat} :
    targeted s line (.index object index own) >>= Target.assigned value =
      targeted s line object >>= Target.assigned (Target.throughElement s index line value) := by
  rw [targeted, bind_assoc]
  refine bind_congr fun whole => ?_
  unfold Target.assigned Target.throughElement
  cases whole.type with
  | array element => simp only [pure_bind, bind_assoc, Target.step, List.append_assoc, List.singleton_append]
  | _ => rfl

end Assignments

/-- Only a field of the receiver is read as one. -/
theorem exists_of_field {e : Expr} {name : String} (h : typed s expected e = .ok (.value (.field name) type)) :
    ∃ own line, e = .member (.this own) name line := by
  have derived := elaborates_of_typed h
  cases derived with
  | field found => exact ⟨_, _, rfl⟩
  | ofLeft _ _ _ _ operates | ofRight _ _ _ _ _ operates | ofLiterals _ _ _ _ _ _ operates => cases operates
  | number h | negative h =>
    rw [literal_eq_literalOf] at h
    cases (literalOf_eq_ok h).1

end Expr

end Covenant
