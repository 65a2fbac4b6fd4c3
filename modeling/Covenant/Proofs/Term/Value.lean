import Covenant.Proofs.Machine.Effect
import Covenant.Proofs.Term.Elaboration
/-!
The value of an expression, evaluated from left to right over the syntax tree.

* `Expr.typeOf`: the type of an expression;
* `Expr.value`: its value in a world, or the failure of the first operation that fails;
* `Elaborates.typeOf_eq`: type checking gives an expression this type;
* `Expr.value_of_typeOf`: an expression without an expected type has the same value where its own
  type is expected.
-/

namespace Covenant

structure World where
  around : Surroundings
  locals : List Datum
  receiver : Datum

/-- The operations of arithmetic are counted: a result that is no number is marked with the one that
made it. -/
abbrev Evaluation := StateT Nat (Except Failure)

namespace Evaluation

def lift (r : Except Failure Datum) : Evaluation Datum := fun n => r.map (·, n)

def counted (r : Origin → Except Failure Datum) : Evaluation Datum :=
  fun n => (r (.computed n)).map (·, n + 1)

end Evaluation

open Evaluation (lift counted)

/-! ## Types -/

def Ty.element? : Ty → Option Ty
  | .array element => some element
  | _ => none

namespace Scope

def memberType? (s : Scope) (type : Ty) (word : String) : Option Ty :=
  match type with
  | .array _ | .primitive .string => some .u32
  | .reference contract => (s.schema.find? contract).bind fun record => record.type.field? word
  | .struct _ fields => fields.lookup word
  | _ => none

end Scope

namespace Expr

/-- The type of both operands of an operation, given the types they have where none is expected. -/
def operandType (expected : Option Ty) (op : BinaryOp) (left right : Expr)
    (first second : Option Ty) : Option Ty :=
  if left.isUntyped then
    if right.isUntyped then (literalType op expected).or first else second
  else first

/-- The type of an expression where a type may be expected. -/
def typeOf (s : Scope) (expected : Option Ty) : Expr → Option Ty
  | .number text _ => some (.primitive (literalPrimitive expected text))
  | .string _ _ => some .string
  | .boolean _ _ => some .boolean
  | .array [] _ => (expected.bind Ty.element?).map .array
  | .array (first :: _) _ => ((expected.bind Ty.element?).or (typeOf s none first)).map .array
  | .name word _ => (s.lookup? word).map fun slot => s.slots.getD slot .publicKey
  | .member (.this _) word _ => s.this.field? word
  | .member object word _ =>
    if s.isContext object then some .publicKey
    else (typeOf s none object).bind fun type => s.memberType? type word
  | .index object _ _ => (typeOf s none object).bind Ty.element?
  | .method _ word _ _ => if word = "indexOf" then some .i32 else some .boolean
  | .unary .not _ _ => some .boolean
  | .unary .negate (.number text _) _ => some (.primitive (literalPrimitive expected text))
  | .unary .negate operand _ => typeOf s expected operand
  | .binary op left right _ =>
    if op.arith?.isNone then some .boolean
    else operandType expected op left right (typeOf s none left) (typeOf s none right)
  | .this _ | .call _ _ _ => none

/-- The truth of a condition of a type. A boolean is its own truth. -/
def truth (type : Option Ty) (d : Datum) : Datum := if type = some .boolean then d else .boolean d.holds

/-- An operator on values of a type, without the logical ones. -/
def applied (op : BinaryOp) (type : Option Ty) (a b : Datum) : Evaluation Datum :=
  match op.comparison?, op.arith?, type with
  | some c, _, _ => lift (Failure.lift (Datum.boolean <$> c.holds a b))
  | none, some .add, some (.primitive .string) =>
    counted fun origin => Failure.lift (a.plus origin b)
  | none, some o, some (.primitive p) => counted fun origin => a.arith origin o p b
  | none, _, _ => lift (.error (.misuse .kind))

mutual
/-- The value of an expression where a type may be expected. -/
def value (s : Scope) (w : World) (expected : Option Ty) : Expr → Evaluation Datum
  | .number text _ => pure (literalDatum (literalPrimitive expected text) false text)
  | .string value _ => pure (.text value)
  | .boolean value _ => pure (.boolean value)
  | .array items _ => do
    return .list (← values s w ((typeOf s expected (.array items 0)).bind Ty.element?) items)
  | .name word _ => lift (Machine.slotValue w.locals ((s.lookup? word).getD 0))
  | .member (.this _) word _ => lift (Failure.lift (w.receiver.member word))
  | .member object word _ =>
    if s.isContext object then pure w.around.caller
    else do
      let whole ← value s w none object
      match typeOf s none object with
      | some (.reference contract) => do
        let record ← lift (w.around.recordOf contract whole)
        lift (Failure.lift (record.member word))
      | some (.struct _ _) => lift (Failure.lift (whole.member word))
      | _ => lift (Failure.lift ((fun n : Nat => Datum.integer n) <$> whole.size))
  | .index object place _ => do
    let whole ← value s w none object
    let index ← value s w (some .u32) place
    lift (whole.element index)
  | .method object word [argument] _ => do
    let whole ← value s w none object
    let item ← value s w ((typeOf s none object).bind Ty.element?) argument
    if word = "indexOf" then lift (Failure.lift (whole.indexOf item))
    else lift (Failure.lift (Datum.boolean <$> whole.includes item))
  | .unary .not operand _ => do
    let d ← value s w (some .boolean) operand
    return .boolean (!(truth (typeOf s (some .boolean) operand) d).isTrue)
  | .unary .negate (.number text _) _ =>
    pure (literalDatum (literalPrimitive expected text) true text)
  | .unary .negate operand _ => do
    let d ← value s w expected operand
    match typeOf s expected operand with
    | some (.primitive p) => counted fun origin => d.arith origin .neg p .null
    | _ => lift (.error (.misuse .kind))
  | .binary .and left right _ => do
    let a := truth (typeOf s (some .boolean) left) (← value s w (some .boolean) left)
    if a.isTrue then
      return truth (typeOf s (some .boolean) right) (← value s w (some .boolean) right)
    else return a
  | .binary .or left right _ => do
    let a := truth (typeOf s (some .boolean) left) (← value s w (some .boolean) left)
    if a.isTrue then return a
    else return truth (typeOf s (some .boolean) right) (← value s w (some .boolean) right)
  | .binary op left right _ => do
    let type := operandType expected op left right (typeOf s none left) (typeOf s none right)
    let a ← value s w type left
    let b ← value s w type right
    applied op type a b
  | .this _ | .method _ _ _ _ | .call _ _ _ => lift (.error (.misuse .kind))

def values (s : Scope) (w : World) (expected : Option Ty) : List Expr → Evaluation (List Datum)
  | [] => return []
  | e :: rest => return (← value s w expected e) :: (← values s w expected rest)
end

end Expr

/-! ## Agreement with type checking -/

theorem Operates.type_eq {op : BinaryOp} {a b t : Term} {type type' : Ty}
    (h : Operates op a b type t type') : type' = if op.arith?.isNone then .boolean else type := by
  cases h with
  | compare stands _ => cases op <;> cases stands <;> rfl
  | join stands => rw [stands]; rfl
  | arith stands _ => rw [stands]; rfl

theorem Expr.type_of_literal {expected : Option Ty} {negative : Bool} {text : String} {line : Nat}
    {t : Term} {type : Ty} (h : literal expected negative text line = .ok (.value t type)) :
    t = .literal (literalPrimitive expected text)
        (literalDatum (literalPrimitive expected text) negative text) ∧
      type = .primitive (literalPrimitive expected text) ∧
      (literalPrimitive expected text).isNumeric = true := by
  obtain ⟨he, -, numeric⟩ := literalOf_eq_ok (literal_eq_literalOf .. ▸ h)
  cases he
  exact ⟨rfl, rfl, numeric⟩

theorem Expr.operandType_of_left {expected : Option Ty} {op : BinaryOp} {left right : Expr}
    (typed : left.isUntyped = false) (first second : Option Ty) :
    operandType expected op left right first second = first := by
  rw [operandType, if_neg (Bool.eq_false_iff.mp typed)]

theorem Expr.operandType_of_right {expected : Option Ty} {op : BinaryOp} {left right : Expr}
    (untyped : left.isUntyped = true) (typed : right.isUntyped = false) (first second : Option Ty) :
    operandType expected op left right first second = second := by
  rw [operandType, if_pos untyped, if_neg (Bool.eq_false_iff.mp typed)]

theorem Expr.operandType_of_literals {s : Scope} {expected : Option Ty} {op : BinaryOp}
    {left right : Expr} {type : Ty} (untyped : left.isUntyped = true)
    (untyped' : right.isUntyped = true) (second : Option Ty)
    (first : typeOf s (literalType op expected) left = some type)
    (own : (literalType op expected).getD type = type) :
    operandType expected op left right (typeOf s none left) second = some type := by
  unfold operandType
  rw [if_pos untyped, if_pos untyped']
  cases h : literalType op expected with
  | none =>
    rw [h] at first
    exact first
  | some found =>
    rw [h] at own
    exact congrArg some own

theorem Scope.ne_this_of_isContext {s : Scope} {object : Expr} (h : s.isContext object = true)
    (own : Nat) : object ≠ .this own := by
  rintro rfl
  cases h

namespace Expr

variable {s : Scope} {w : World} {expected : Option Ty}

theorem typeOf_member {object : Expr} (other : ∀ own, object ≠ .this own) (word : String)
    (line : Nat) : typeOf s expected (.member object word line) =
      if s.isContext object then some .publicKey
      else (typeOf s none object).bind fun type => s.memberType? type word := by
  cases object <;> first | rfl | exact absurd rfl (other _)

theorem typeOf_negate (operand : Expr) (line : Nat) :
    typeOf s expected (.unary .negate operand line) = typeOf s expected operand := by
  cases operand <;> rfl

end Expr

/-- Type checking gives an expression its type. -/
theorem Elaborates.typeOf_eq {s : Scope} {expected : Option Ty} {e : Expr} {t : Term} {type : Ty}
    (h : Elaborates s expected e t type) : e.typeOf s expected = some type := by
  induction h with
  | number h | negative h =>
    rw [Expr.typeOf]
    exact congrArg some (Expr.type_of_literal h).2.1.symm
  | string | boolean => rfl
  | @items element items terms line length each ih =>
    cases items <;> rfl
  | @itemsOfFirst expected first rest t terms element line other _ _ _ ih _ =>
    have none : expected.bind Ty.element? = none := by
      cases expected with
      | none => rfl
      | some type => cases type with
        | array element => exact absurd rfl (other element)
        | _ => rfl
    rw [Expr.typeOf, none, ih]
    rfl
  | name _ found => rw [Expr.typeOf, found]; rfl
  | field found => exact found
  | caller context =>
    rw [Expr.typeOf_member (Scope.ne_this_of_isContext context), if_pos context]
  | arraySize other plain _ ih | textSize other plain _ ih =>
    rw [Expr.typeOf_member other, plain, ih]
    rfl
  | referenced other plain _ known found ih =>
    rw [Expr.typeOf_member other, plain, ih]
    simp only [Bool.false_eq_true, if_false, Option.bind_some, Scope.memberType?, known]
    exact found
  | member other plain _ found ih =>
    rw [Expr.typeOf_member other, plain, ih]
    exact found
  | element _ _ _ ih _ => rw [Expr.typeOf, ih]; rfl
  | negate _ _ _ ih => rw [Expr.typeOf_negate, ih]
  | indexOf | includes | not | both | either => rfl
  | ofLeft _ typed _ _ operates ih _ =>
    rw [Expr.typeOf, Expr.operandType_of_left typed, ih, operates.type_eq, apply_ite some]
  | ofRight _ untyped typed _ _ operates ih _ =>
    rw [Expr.typeOf, Expr.operandType_of_right untyped typed, ih, operates.type_eq, apply_ite some]
  | ofLiterals _ untyped untyped' _ own _ operates ih _ =>
    rw [Expr.typeOf, Expr.operandType_of_literals untyped untyped' _ ih own, operates.type_eq,
      apply_ite some]

namespace Expr

variable {s : Scope} {w : World} {expected : Option Ty}

theorem value_member {object : Expr} (other : ∀ own, object ≠ .this own)
    (plain : s.isContext object = false) (word : String) (line : Nat) :
    value s w expected (.member object word line) = (do
      let whole ← value s w none object
      match typeOf s none object with
      | some (.reference contract) => do
        let record ← lift (w.around.recordOf contract whole)
        lift (Failure.lift (record.member word))
      | some (.struct _ _) => lift (Failure.lift (whole.member word))
      | _ => lift (Failure.lift ((fun n : Nat => Datum.integer n) <$> whole.size))) := by
  cases object <;> first
    | exact absurd rfl (other _)
    | exact if_neg (Bool.eq_false_iff.mp plain)

theorem value_caller {object : Expr} (context : s.isContext object = true) (word : String)
    (line : Nat) : value s w expected (.member object word line) = pure w.around.caller := by
  cases object <;> exact if_pos context

theorem length_of_values {items : List Expr} {n c : Nat} {ds : List Datum}
    (h : (values s w expected items).run n = .ok (ds, c)) : ds.length = items.length := by
  induction items generalizing n ds with
  | nil =>
    cases h
    rfl
  | cons e rest ih =>
    rw [values, StateT.run_bind] at h
    obtain ⟨⟨d, c₁⟩, -, h⟩ := bind_eq_ok.mp h
    rw [StateT.run_bind] at h
    obtain ⟨⟨ds', c₂⟩, hr, h⟩ := bind_eq_ok.mp h
    cases h
    rw [List.length_cons, List.length_cons, ih hr]

theorem value_negate {operand : Expr} (other : ∀ text own, operand ≠ .number text own) (line : Nat) :
    value s w expected (.unary .negate operand line) = (do
      let d ← value s w expected operand
      match typeOf s expected operand with
      | some (.primitive p) => counted fun origin => d.arith origin .neg p .null
      | _ => lift (.error (.misuse .kind))) := by
  cases operand <;> first | exact absurd rfl (other _ _) | rfl

theorem value_binary {op : BinaryOp} (plain : op.isLogical = false) (left right : Expr) (line : Nat) :
    value s w expected (.binary op left right line) = (do
      let type := operandType expected op left right (typeOf s none left) (typeOf s none right)
      let a ← value s w type left
      let b ← value s w type right
      applied op type a b) := by
  cases op <;> first | rfl | cases plain

theorem literalPrimitive_of_own (text : String) :
    literalPrimitive (some (.primitive (literalPrimitive none text))) text =
      literalPrimitive none text := by
  have numeric : (literalPrimitive none text).isNumeric = true := by
    simp only [literalPrimitive, Option.bind_none]
    split <;> rfl
  exact if_pos numeric

/-- Two literal numbers have the type of their operation, where that one is expected. -/
theorem operandType_of_typeOf {op : BinaryOp} {left right : Expr} {line : Nat} {type : Ty}
    (h : typeOf s none (.binary op left right line) = some type) :
    operandType (some type) op left right (typeOf s none left) (typeOf s none right) =
      operandType none op left right (typeOf s none left) (typeOf s none right) := by
  have unexpected : literalType op none = none := by
    unfold literalType
    split <;> rfl
  rw [typeOf] at h
  unfold operandType at h ⊢
  split at h
  next compares =>
    have untyped : literalType op (some type) = none := by
      cases op <;> first | rfl | exact nomatch compares
    rw [untyped, unexpected]
  · split
    · split
      next untyped untyped' =>
        rw [if_pos untyped, if_pos untyped', unexpected, Option.none_or] at h
        rw [unexpected, Option.none_or, h]
        unfold literalType
        split
        · rw [Option.filter_some]
          split <;> rfl
        · rfl
      next => rfl
    · rfl

/-- Where its own type is expected an expression has that type. -/
theorem typeOf_of_typeOf (e : Expr) {type : Ty} (h : typeOf s none e = some type) :
    typeOf s (some type) e = some type := by
  match e, h with
  | .number text line, h =>
    cases h
    rw [typeOf, literalPrimitive_of_own]
  | .array [] line, h => cases h
  | .array (first :: rest) line, h =>
    obtain ⟨element, -, rfl⟩ := Option.map_eq_some_iff.mp h
    rfl
  | .binary op left right line, h =>
    rw [typeOf, operandType_of_typeOf h]
    exact h
  | .unary .negate operand line, h =>
    rw [typeOf_negate] at h ⊢
    exact typeOf_of_typeOf operand h
  | .member object word line, h => cases object <;> exact h
  | .string _ _, h | .boolean _ _, h | .name _ _, h | .this _, h | .index _ _ _, h
  | .method _ _ _ _, h | .call _ _ _, h | .unary .not _ _, h => exact h

/-- Where its own type is expected an expression has the value that it has without. -/
theorem value_of_typeOf (e : Expr) {type : Ty} (h : typeOf s none e = some type) :
    value s w (some type) e = value s w none e := by
  match e, h with
  | .number text line, h =>
    cases h
    rw [value, value, literalPrimitive_of_own]
  | .array [] line, h => cases h
  | .array (first :: rest) line, h =>
    obtain ⟨element, hf, rfl⟩ := Option.map_eq_some_iff.mp h
    have same : typeOf s (some (.array element)) (.array (first :: rest) 0) =
        typeOf s none (.array (first :: rest) 0) := h.symm
    rw [value, value, same]
  | .binary op left right line, h =>
    cases plain : op.isLogical with
    | true => cases op <;> first | rfl | cases plain
    | false =>
      rw [value_binary plain, value_binary plain, operandType_of_typeOf h]
  | .unary .negate operand line, h =>
    by_cases number : ∃ text own, operand = .number text own
    · obtain ⟨text, own, rfl⟩ := number
      cases h
      rw [value, value, literalPrimitive_of_own]
    · have other : ∀ text own, operand ≠ .number text own :=
        fun text own he => number ⟨text, own, he⟩
      rw [typeOf_negate] at h
      rw [value_negate other, value_negate other, value_of_typeOf operand h,
        typeOf_of_typeOf operand h, h]
  | .member object word line, _ => cases object <;> rfl
  | .method object word [] _, _ | .method object word [_] _, _ | .method object word (_ :: _ :: _) _, _ => rfl
  | .string _ _, _ | .boolean _ _, _ | .name _ _, _ | .this _, _ | .index _ _ _, _
  | .call _ _ _, _ | .unary .not _ _, _ => rfl

end Expr

end Covenant
