import Covenant.Proofs.Except
import Covenant.Term.Typing
/-!
Type checking of expressions as a relation. Each rule is one way in which an expression can be given
a term and a type.

* `Elaborates`, `Expr.Targets`, `Expr.Acts`: the rules for values, for targets of assignments and for
  expressions that stand for actions;
* `elaborates_of_typed`, `targets_of_targeted`, `acts_of_typed`: what the type checker accepts has a
  derivation by these rules.
-/

namespace Covenant

/-- The value that a literal of a primitive type stands for. A literal number is a number. -/
inductive IsLiteral : Primitive → Datum → Prop
  | boolean (b : Bool) : IsLiteral .boolean (.boolean b)
  | string (s : String) : IsLiteral .string (.text s)
  | single {x : Double} (number : x.isNan = false) : IsLiteral .f32 (.float (x.roundSingle .literal))
  | double {x : Double} (number : x.isNan = false) : IsLiteral .f64 (.float x)
  | integer {p : Primitive} {low high n : Int} (range : p.range? = some (low, high))
      (least : low ≤ n) (greatest : n ≤ high) : IsLiteral p (.integer n)

theorem Decimal.isNan_toDouble (negative : Bool) (m : Nat) (e : Int) :
    (toDouble negative m e).isNan = false := by
  unfold toDouble
  split_ifs <;> rfl

/-- A type whose values count as true or false. -/
def Ty.HasTruth (t : Ty) : Prop := t = .publicKey ∨ t = .string ∨ t.isNumeric = true

inductive IsCondition (t : Term) : Ty → Term → Prop
  | boolean : IsCondition t .boolean t
  | truth {type : Ty} (h : type.HasTruth) : IsCondition t type (.truth t)

namespace BinaryOp

def comparison? : BinaryOp → Option Comparison
  | .equal => some .equal
  | .notEqual => some .notEqual
  | .less => some .less
  | .lessEqual => some .lessEqual
  | .greater => some .greater
  | .greaterEqual => some .greaterEqual
  | _ => none

def arith? : BinaryOp → Option Arith
  | .add => some .add
  | .sub => some .sub
  | .mul => some .mul
  | .div => some .div
  | .mod => some .mod
  | _ => none

def isLogical (op : BinaryOp) : Bool := op = .and || op = .or

end BinaryOp

/-- Whether values of a type are compared in a way. -/
def Comparison.Suits (c : Comparison) (type : Ty) : Prop :=
  c = .equal ∨ c = .notEqual ∨ type.isNumeric = true ∨ type = .string

/-- The term of an operator on two operands of a type, and its type. -/
inductive Operates (op : BinaryOp) (a b : Term) : Ty → Term → Ty → Prop
  | compare {type : Ty} {c : Comparison} (stands : op.comparison? = some c)
      (suits : c.Suits type) : Operates op a b type (.compare c a b) .boolean
  | join (stands : op = .add) : Operates op a b .string (.join a b) .string
  | arith {p : Primitive} {o : Arith} (stands : op.arith? = some o) (numeric : p.isNumeric = true) :
      Operates op a b (.primitive p) (.arith o p a b) (.primitive p)

/-- The rules for expressions that have a value. -/
inductive Elaborates (s : Scope) : Option Ty → Expr → Term → Ty → Prop
  | number {expected : Option Ty} {text : String} {line : Nat} {t : Term} {type : Ty}
      (h : Expr.literal expected false text line = .ok (.value t type)) :
      Elaborates s expected (.number text line) t type
  | string {expected : Option Ty} {value : String} {line : Nat} :
      Elaborates s expected (.string value line) (.literal .string (.text value)) .string
  | boolean {expected : Option Ty} {value : Bool} {line : Nat} :
      Elaborates s expected (.boolean value line) (.literal .boolean (.boolean value)) .boolean
  | items {element : Ty} {items : List Expr} {terms : List Term} {line : Nat}
      (length : items.length = terms.length)
      (each : ∀ e t, (e, t) ∈ items.zip terms → Elaborates s (some element) e t element) :
      Elaborates s (some (.array element)) (.array items line) (.array terms) (.array element)
  | itemsOfFirst {expected : Option Ty} {first : Expr} {rest : List Expr} {t : Term}
      {terms : List Term} {element : Ty} {line : Nat}
      (other : ∀ element, expected ≠ some (.array element))
      (head : Elaborates s none first t element) (length : rest.length = terms.length)
      (each : ∀ e t, (e, t) ∈ rest.zip terms → Elaborates s (some element) e t element) :
      Elaborates s expected (.array (first :: rest) line) (.array (t :: terms)) (.array element)
  | name {expected : Option Ty} {word : String} {line slot : Nat}
      (plain : s.isContext (.name word line) = false) (found : s.lookup? word = some slot) :
      Elaborates s expected (.name word line) (.slot slot) (s.slots.getD slot .publicKey)
  | field {expected : Option Ty} {word : String} {line own : Nat} {type : Ty}
      (found : s.this.field? word = some type) :
      Elaborates s expected (.member (.this own) word line) (.field word) type
  | caller {expected : Option Ty} {object : Expr} {line : Nat} (context : s.isContext object = true) :
      Elaborates s expected (.member object "publicKey" line) .caller .publicKey
  | arraySize {expected : Option Ty} {object : Expr} {line : Nat} {t : Term} {element : Ty}
      (other : ∀ own, object ≠ .this own) (plain : s.isContext object = false)
      (whole : Elaborates s none object t (.array element)) :
      Elaborates s expected (.member object "length" line) (.arraySize t) .u32
  | textSize {expected : Option Ty} {object : Expr} {line : Nat} {t : Term}
      (other : ∀ own, object ≠ .this own) (plain : s.isContext object = false)
      (whole : Elaborates s none object t .string) :
      Elaborates s expected (.member object "length" line) (.textSize t) .u32
  | referenced {expected : Option Ty} {object : Expr} {word contract : String} {line : Nat} {t : Term}
      {record : RecordSchema} {type : Ty} (other : ∀ own, object ≠ .this own)
      (plain : s.isContext object = false) (whole : Elaborates s none object t (.reference contract))
      (known : s.schema.find? contract = some record) (found : record.type.field? word = some type) :
      Elaborates s expected (.member object word line) (.member (.referenced contract t) word) type
  | member {expected : Option Ty} {object : Expr} {word name : String} {line : Nat} {t : Term}
      {fields : List (String × Ty)} {type : Ty} (other : ∀ own, object ≠ .this own)
      (plain : s.isContext object = false) (whole : Elaborates s none object t (.struct name fields))
      (found : fields.lookup word = some type) :
      Elaborates s expected (.member object word line) (.member t word) type
  | element {expected : Option Ty} {object place : Expr} {line : Nat} {t p : Term} {element type : Ty}
      (whole : Elaborates s none object t (.array element))
      (index : Elaborates s (some .u32) place p type) (integer : type.isInteger = true) :
      Elaborates s expected (.index object place line) (.element t p) element
  | indexOf {expected : Option Ty} {object target : Expr} {line : Nat} {t a : Term} {element : Ty}
      (whole : Elaborates s none object t (.array element))
      (item : Elaborates s (some element) target a element) :
      Elaborates s expected (.method object "indexOf" [target] line) (.indexOf t a) .i32
  | includes {expected : Option Ty} {object target : Expr} {line : Nat} {t a : Term} {element : Ty}
      (whole : Elaborates s none object t (.array element))
      (item : Elaborates s (some element) target a element) :
      Elaborates s expected (.method object "includes" [target] line) (.includes t a) .boolean
  | not {expected : Option Ty} {operand : Expr} {line : Nat} {t c : Term} {type : Ty}
      (value : Elaborates s (some .boolean) operand t type) (condition : IsCondition t type c) :
      Elaborates s expected (.unary .not operand line) (.not c) .boolean
  | negative {expected : Option Ty} {text : String} {line own : Nat} {t : Term} {type : Ty}
      (h : Expr.literal expected true text line = .ok (.value t type)) :
      Elaborates s expected (.unary .negate (.number text line) own) t type
  | negate {expected : Option Ty} {operand : Expr} {line : Nat} {t : Term} {p : Primitive}
      (other : ∀ text own, operand ≠ .number text own)
      (value : Elaborates s expected operand t (.primitive p)) (signed : p.isSigned = true) :
      Elaborates s expected (.unary .negate operand line) (.negate p t) (.primitive p)
  | both {expected : Option Ty} {left right : Expr} {line : Nat} {t u a b : Term} {type type' : Ty}
      (first : Elaborates s (some .boolean) left t type) (condition : IsCondition t type a)
      (second : Elaborates s (some .boolean) right u type') (condition' : IsCondition u type' b) :
      Elaborates s expected (.binary .and left right line) (.both a b) .boolean
  | either {expected : Option Ty} {left right : Expr} {line : Nat} {t u a b : Term} {type type' : Ty}
      (first : Elaborates s (some .boolean) left t type) (condition : IsCondition t type a)
      (second : Elaborates s (some .boolean) right u type') (condition' : IsCondition u type' b) :
      Elaborates s expected (.binary .or left right line) (.either a b) .boolean
  | ofLeft {expected : Option Ty} {op : BinaryOp} {left right : Expr} {line : Nat} {a b t : Term}
      {type type' : Ty} (plain : op.isLogical = false) (typed : left.isUntyped = false)
      (first : Elaborates s none left a type) (second : Elaborates s (some type) right b type)
      (operates : Operates op a b type t type') :
      Elaborates s expected (.binary op left right line) t type'
  | ofRight {expected : Option Ty} {op : BinaryOp} {left right : Expr} {line : Nat} {a b t : Term}
      {type type' : Ty} (plain : op.isLogical = false) (untyped : left.isUntyped = true)
      (typed : right.isUntyped = false) (second : Elaborates s none right b type)
      (first : Elaborates s (some type) left a type) (operates : Operates op a b type t type') :
      Elaborates s expected (.binary op left right line) t type'
  | ofLiterals {expected : Option Ty} {op : BinaryOp} {left right : Expr} {line : Nat} {a b t : Term}
      {type type' : Ty} (plain : op.isLogical = false) (untyped : left.isUntyped = true)
      (untyped' : right.isUntyped = true)
      (first : Elaborates s (Expr.literalType op expected) left a type)
      (own : (Expr.literalType op expected).getD type = type)
      (second : Elaborates s (some type) right b type) (operates : Operates op a b type t type') :
      Elaborates s expected (.binary op left right line) t type'

/-- The rules for targets of assignments. -/
inductive Expr.Targets (s : Scope) : Expr → Expr.Target → Prop
  | name {word : String} {line slot : Nat} (plain : s.isContext (.name word line) = false)
      (found : s.lookup? word = some slot) :
      Targets s (.name word line) (.ofRoot (.slot slot) (s.slots.getD slot .publicKey))
  | field {word : String} {line own : Nat} {type : Ty} (found : s.this.field? word = some type) :
      Targets s (.member (.this own) word line) (.ofRoot (.field word) type)
  | member {object : Expr} {word name : String} {line : Nat} {whole : Expr.Target}
      {fields : List (String × Ty)} {type : Ty} (other : ∀ own, object ≠ .this own)
      (plain : s.isContext object = false) (first : Targets s object whole)
      (struct : whole.type = .struct name fields) (found : fields.lookup word = some type) :
      Targets s (.member object word line) (whole.step (.member word) type)
  | element {object place : Expr} {line : Nat} {whole : Expr.Target} {p : Term} {element type : Ty}
      (first : Targets s object whole) (array : whole.type = .array element)
      (index : Elaborates s (some .u32) place p type) (integer : type.isInteger = true) :
      Targets s (.index object place line) (whole.step (.element p) element)

/-- The rules for expressions that stand for actions. -/
inductive Expr.Acts (s : Scope) : Expr → Action → Prop
  | push {object argument : Expr} {line : Nat} {target : Expr.Target} {item : Term} {element : Ty}
      (whole : Expr.Targets s object target) (array : target.type = .array element)
      (value : Elaborates s (some element) argument item element) :
      Acts s (.method object "push" [argument] line)
        (.assign target.root target.path (.appended target.read item))
  | error {argument : Expr} {line : Nat} {message : Term}
      (value : Elaborates s (some .string) argument message .string) :
      Acts s (.call "error" [argument] line) (.abort message)

/-- What the type checker finds out about an expression. -/
def Expr.Yields (s : Scope) (expected : Option Ty) (e : Expr) : Typed → Prop
  | .value t type => Elaborates s expected e t type
  | .effect action => e.Acts s action

/-! ## Requirements on what an expression turns out to be -/

namespace Typed

variable {β : Type} {x : Except CompileError Typed} {b : β}

theorem value_of_term {line : Nat} {f : Term × Ty → Except CompileError β}
    (h : (x >>= fun r => r.term line >>= f) = .ok b) :
    ∃ t type, x = .ok (.value t type) ∧ f (t, type) = .ok b := by
  obtain ⟨r, rfl, hr⟩ := bind_eq_ok.mp h
  cases r with
  | value t type => exact ⟨t, type, rfl, hr⟩
  | effect action => cases hr

theorem value_of_termOf {expected : Ty} {own line : Nat} {f : Term → Except CompileError β}
    (h : (x >>= fun r => r.termOf expected own line >>= f) = .ok b) :
    ∃ t, x = .ok (.value t expected) ∧ f t = .ok b := by
  obtain ⟨r, rfl, hr⟩ := bind_eq_ok.mp h
  cases r with
  | value t type =>
    obtain ⟨t', ht, hf⟩ := bind_eq_ok.mp hr
    simp only [termOf, term, ok_bind] at ht
    split at ht
    next he =>
      obtain rfl := pure_eq_ok.mp ht
      exact ⟨t, he ▸ rfl, hf⟩
    next => cases ht
  | effect action => cases hr

theorem value_of_condition {own line : Nat} {f : Term → Except CompileError β}
    (h : (x >>= fun r => r.condition own line >>= f) = .ok b) :
    ∃ t type c, x = .ok (.value t type) ∧ IsCondition t type c ∧ f c = .ok b := by
  obtain ⟨r, rfl, hr⟩ := bind_eq_ok.mp h
  cases r with
  | value t type =>
    obtain ⟨c, hc, hf⟩ := bind_eq_ok.mp hr
    simp only [condition, term, ok_bind] at hc
    refine ⟨t, type, c, rfl, ?_, hf⟩
    split at hc
    next he =>
      obtain rfl := pure_eq_ok.mp hc
      exact he ▸ .boolean
    next =>
      split at hc
      next ht =>
        obtain rfl := pure_eq_ok.mp hc
        refine .truth ?_
        simpa [Ty.HasTruth, or_assoc] using ht
      next => cases hc
  | effect action => cases hr

theorem value_of_place {own line : Nat} {f : Term → Except CompileError β}
    (h : (x >>= fun r => r.place own line >>= f) = .ok b) :
    ∃ t type, x = .ok (.value t type) ∧ type.isInteger = true ∧ f t = .ok b := by
  obtain ⟨r, rfl, hr⟩ := bind_eq_ok.mp h
  cases r with
  | value t type =>
    obtain ⟨t', ht, hf⟩ := bind_eq_ok.mp hr
    simp only [place, term, ok_bind] at ht
    split at ht
    next hi =>
      obtain rfl := pure_eq_ok.mp ht
      exact ⟨t, type, rfl, hi, hf⟩
    next => cases ht
  | effect action => cases hr

end Typed

/-- What is computed with numbers of a type, if that is a type of numbers. -/
def Ty.onNumbers {α : Type} (type : Ty) (operator : String) (line : Nat) (compute : Primitive → α) :
    Except CompileError α :=
  match type with
  | .primitive p =>
    if p.isNumeric then .ok (compute p)
    else CompileError.throw (.undefinedOperator operator type) line
  | _ => CompileError.throw (.undefinedOperator operator type) line

theorem Ty.numeric_of_onNumbers {α : Type} {type : Ty} {operator : String} {line : Nat}
    {compute : Primitive → α} {a : α} (h : type.onNumbers operator line compute = .ok a) :
    ∃ p, type = .primitive p ∧ p.isNumeric = true ∧ a = compute p := by
  cases type with
  | primitive p =>
    simp only [onNumbers] at h
    split at h
    next numeric =>
      cases h
      exact ⟨p, rfl, numeric, rfl⟩
    next => cases h
  | _ => cases h

namespace Expr

theorem operates_of_operation {op : BinaryOp} {type : Ty} {a b : Term} {line : Nat} {r : Typed}
    (plain : op.isLogical = false) (h : operation op type a b line = .ok r) :
    ∃ t type', r = .value t type' ∧ Operates op a b type t type' := by
  have computed : ∀ o, op.arith? = some o →
      type.onNumbers op.text line (fun p => Typed.value (.arith o p a b) type) = .ok r →
      ∃ t type', r = .value t type' ∧ Operates op a b type t type' := by
    intro o ho h
    obtain ⟨p, rfl, numeric, rfl⟩ := Ty.numeric_of_onNumbers h
    exact ⟨_, _, rfl, .arith ho numeric⟩
  have ordered : ∀ c, op.comparison? = some c →
      (if type.isNumeric || type = .string then .ok (Typed.value (.compare c a b) .boolean)
        else CompileError.throw (.unordered type) line) = .ok r →
      ∃ t type', r = .value t type' ∧ Operates op a b type t type' := by
    intro c hc h
    split at h
    next ht =>
      cases h
      refine ⟨_, _, rfl, .compare hc (.inr (.inr ?_))⟩
      simpa using ht
    next => cases h
  cases op with
  | equal =>
    cases h
    exact ⟨_, _, rfl, .compare rfl (.inl rfl)⟩
  | notEqual =>
    cases h
    exact ⟨_, _, rfl, .compare rfl (.inr (.inl rfl))⟩
  | less | lessEqual | greater | greaterEqual => exact ordered _ rfl h
  | add =>
    simp only [operation] at h
    split at h
    next ht =>
      cases h
      exact ⟨_, _, rfl, ht ▸ .join rfl⟩
    next => exact computed _ rfl h
  | sub | mul | div | mod => exact computed _ rfl h
  | and | or => cases plain

/-- The type of a literal number: the one that is expected, if that is numeric. -/
def literalPrimitive (expected : Option Ty) (text : String) : Primitive :=
  let own := if text.toList.contains '.' then .f64 else .i32
  match expected.bind Ty.primitive? with
  | some p => if p.isNumeric then p else own
  | none => own

/-- The integer that a literal number without a point is. -/
def literalInteger (negative : Bool) (text : String) : Int :=
  let n : Int := Decimal.value (text.toList.takeWhile (· != '.'))
  if negative then -n else n

def literalDatum (p : Primitive) (negative : Bool) (text : String) : Datum :=
  let whole := text.toList.takeWhile (· != '.')
  let fraction := text.toList.drop (whole.length + 1)
  if p.isFloat then
    let x := Decimal.toDouble negative (Decimal.value (whole ++ fraction)) (-fraction.length)
    .float (if p = .f32 then x.roundSingle .literal else x)
  else .integer (literalInteger negative text)

/-- A literal number in a numeric type, if it fits. -/
def literalOf (p : Primitive) (negative : Bool) (text : String) (line : Nat) :
    Except CompileError Typed :=
  let written := if negative then "-" ++ text else text
  if p.isFloat then .ok (.value (.literal p (literalDatum p negative text)) (.primitive p))
  else if text.toList.contains '.' then CompileError.throw (.fractionalLiteral p written) line
  else if Text.digitLimit < (text.toList.takeWhile (· != '.')).length then
    CompileError.throw .literalSize line
  else
    let n := literalInteger negative text
    match p.range? with
    | some (low, high) =>
      if low ≤ n ∧ n ≤ high then .ok (.value (.literal p (.integer n)) (.primitive p))
      else CompileError.throw (.literalRange written p) line
    | none => CompileError.throw (.literalRange written p) line

theorem literal_eq_literalOf (expected : Option Ty) (negative : Bool) (text : String) (line : Nat) :
    literal expected negative text line =
      literalOf (literalPrimitive expected text) negative text line := by
  change (if (literalPrimitive expected text).isFloat then _ else _) = _
  unfold literalOf
  by_cases hf : (literalPrimitive expected text).isFloat = true
  · simp only [literalDatum, hf, if_true]
    rfl
  · simp only [hf]
    rfl

theorem literalOf_eq_ok {p : Primitive} {negative : Bool} {text : String} {line : Nat} {r : Typed}
    (h : literalOf p negative text line = .ok r) :
    r = .value (.literal p (literalDatum p negative text)) (.primitive p) ∧
      IsLiteral p (literalDatum p negative text) ∧ p.isNumeric = true := by
  unfold literalOf at h
  by_cases hf : p.isFloat = true
  · simp only [hf, if_true, Except.ok.injEq] at h
    refine ⟨h.symm, ?_, by simp [Primitive.isNumeric, hf]⟩
    simp only [literalDatum, hf, if_true]
    cases p with
    | f32 => exact .single (Decimal.isNan_toDouble _ _ _)
    | f64 => exact .double (Decimal.isNan_toDouble _ _ _)
    | _ => cases hf
  · simp only [hf, if_false, Bool.false_eq_true] at h
    by_cases hp : text.toList.contains '.' = true
    · rw [if_pos hp] at h
      cases h
    · rw [if_neg hp] at h
      by_cases hl : Text.digitLimit < (text.toList.takeWhile (· != '.')).length
      · rw [if_pos hl] at h
        cases h
      · rw [if_neg hl] at h
        cases range : p.range? with
        | none =>
          simp only [range] at h
          cases h
        | some bounds =>
          obtain ⟨low, high⟩ := bounds
          simp only [range] at h
          split at h
          next hr =>
            simp only [literalDatum, hf, if_false, Bool.false_eq_true]
            cases h
            refine ⟨rfl, .integer range hr.1 hr.2, ?_⟩
            simp [Primitive.isNumeric, Primitive.isInteger, range]
          next => cases h

theorem elaborates_of_literal {expected : Option Ty} {negative : Bool} {text : String}
    {line : Nat} {r : Typed} (h : literal expected negative text line = .ok r) :
    ∃ t type, r = .value t type :=
  ⟨_, _, (literalOf_eq_ok (literal_eq_literalOf .. ▸ h)).1⟩

theorem yields_of_memberOf {s : Scope} {expected : Option Ty} {object : Expr} {word : String}
    {line : Nat} {t : Term} {type : Ty} {r : Typed} (other : ∀ own, object ≠ .this own)
    (plain : s.isContext object = false) (whole : Elaborates s none object t type)
    (h : memberOf s t type word line = .ok r) : Yields s expected (.member object word line) r := by
  cases type with
  | array element =>
    simp only [memberOf] at h
    split at h
    next hw =>
      cases h
      exact hw ▸ .arraySize other plain whole
    next => cases h
  | reference contract =>
    obtain ⟨record, hr, h⟩ := bind_eq_ok.mp h
    split at h
    next field hf =>
      cases h
      refine .referenced other plain whole ?_ hf
      unfold Schema.record at hr
      split at hr
      next found =>
        cases hr
        exact found
      next => cases hr
    next => cases h
  | struct name fields =>
    simp only [memberOf] at h
    split at h
    next field hf =>
      cases h
      exact .member other plain whole hf
    next => cases h
  | primitive p =>
    cases p with
    | string =>
      simp only [memberOf] at h
      split at h
      next hw =>
        cases h
        exact hw ▸ .textSize other plain whole
      next => cases h
    | _ => cases h
  | publicKey => cases h

theorem form_of_acts {s : Scope} {e : Expr} {action : Action} (h : e.Acts s action) :
    (∃ object argument line, e = .method object "push" [argument] line) ∨
      ∃ argument line, e = .call "error" [argument] line := by
  cases h with
  | push => exact .inl ⟨_, _, _, rfl⟩
  | error => exact .inr ⟨_, _, rfl⟩

/-- An expression with a value is not one that stands for an action. -/
theorem not_acts_of_elaborates {s : Scope} {expected : Option Ty} {e : Expr} {t : Term} {type : Ty}
    {action : Action} (h : Elaborates s expected e t type) : ¬ e.Acts s action := by
  intro acts
  rcases form_of_acts acts with ⟨object, argument, line, he⟩ | ⟨argument, line, he⟩
  · cases h <;> simp at he
  · cases h <;> simp at he

theorem scope_slot_eq_ok {s : Scope} {word : String} {line slot : Nat} {type : Ty}
    (h : s.slot word line = .ok (slot, type)) :
    s.lookup? word = some slot ∧ type = s.slots.getD slot .publicKey := by
  unfold Scope.slot at h
  split at h
  next found =>
    cases h
    exact ⟨found, rfl⟩
  next => cases h

theorem scope_field_eq_ok {s : Scope} {word : String} {line : Nat} {type : Ty}
    (h : s.field word line = .ok type) : s.this.field? word = some type := by
  unfold Scope.field at h
  split at h
  next found =>
    cases h
    exact found
  next => cases h

/-! ## What is accepted, constructor by constructor -/

/-- What the type checker accepts of an expression has a derivation. -/
def Derives (s : Scope) (e : Expr) : Prop :=
  ∀ expected r, typed s expected e = .ok r → Yields s expected e r

/-- What it accepts as a target has a derivation. -/
def DerivesTarget (s : Scope) (e : Expr) : Prop :=
  ∀ line target, targeted s line e = .ok target → e.Targets s target

section Constructors

variable {s : Scope} {line : Nat} {word : String} {object argument operand left right place : Expr}

mutual
theorem items_of_typedItems {element : Ty} {items : List Expr} {terms : List Term}
    (each : ∀ e ∈ items, Derives s e) (h : typedItems s element line items = .ok terms) :
    items.length = terms.length ∧
      ∀ e t, (e, t) ∈ items.zip terms → Elaborates s (some element) e t element := by
  induction items generalizing terms with
  | nil =>
    rw [typedItems] at h
    obtain rfl := pure_eq_ok.mp h
    exact ⟨rfl, nofun⟩
  | cons e rest ih =>
    rw [typedItems] at h
    obtain ⟨t, ht, h⟩ := Typed.value_of_termOf h
    obtain ⟨terms', hs, h⟩ := bind_eq_ok.mp h
    obtain rfl := pure_eq_ok.mp h
    obtain ⟨length, others⟩ := ih (fun e he => each e (List.mem_cons_of_mem _ he)) hs
    refine ⟨congrArg (· + 1) length, fun e' t' h => ?_⟩
    rcases List.mem_cons.mp h with he | h
    · obtain ⟨rfl, rfl⟩ := Prod.mk.inj he
      exact each _ List.mem_cons_self _ _ ht
    · exact others e' t' h

theorem derives_array {items : List Expr} (each : ∀ e ∈ items, Derives s e) :
    Derives s (.array items line) := by
  intro expected r h
  by_cases array : ∃ element, expected = some (.array element)
  · obtain ⟨element, rfl⟩ := array
    rw [typed] at h
    obtain ⟨terms, ht, h⟩ := bind_eq_ok.mp h
    obtain rfl := pure_eq_ok.mp h
    obtain ⟨length, typed⟩ := items_of_typedItems each ht
    exact .items length typed
  · have other : ∀ element, expected ≠ some (.array element) := fun element he => array ⟨element, he⟩
    cases items with
    | nil =>
      rw [typed] at h
      · cases h
      · exact other
    | cons first rest =>
      rw [typed] at h
      · obtain ⟨t, element, hf, h⟩ := Typed.value_of_term h
        obtain ⟨terms, hs, h⟩ := bind_eq_ok.mp h
        obtain rfl := pure_eq_ok.mp h
        obtain ⟨length, typed⟩ :=
          items_of_typedItems (fun e he => each e (List.mem_cons_of_mem _ he)) hs
        exact .itemsOfFirst other (each first List.mem_cons_self _ _ hf) length typed
      · exact other
end

theorem derives_number {text : String} : Derives s (.number text line) := by
  intro expected r h
  rw [typed] at h
  obtain ⟨t, type, rfl⟩ := elaborates_of_literal h
  exact .number h

theorem derives_string {value : String} : Derives s (.string value line) := by
  intro expected r h
  cases h
  exact .string

theorem derives_boolean {value : Bool} : Derives s (.boolean value line) := by
  intro expected r h
  cases h
  exact .boolean

theorem derives_name : Derives s (.name word line) := by
  intro expected r h
  by_cases context : s.isContext (.name word line) = true
  · rw [typed, if_pos context] at h
    cases h
  · rw [typed, if_neg context] at h
    obtain ⟨⟨slot, type⟩, hs, h⟩ := bind_eq_ok.mp h
    obtain rfl := pure_eq_ok.mp h
    obtain ⟨found, rfl⟩ := scope_slot_eq_ok hs
    exact .name (eq_false_of_ne_true context) found

theorem derives_field {own : Nat} : Derives s (.member (.this own) word line) := by
  intro expected r h
  rw [typed] at h
  obtain ⟨type, ht, h⟩ := bind_eq_ok.mp h
  obtain rfl := pure_eq_ok.mp h
  exact .field (scope_field_eq_ok ht)

theorem derives_member_of_ne (other : ∀ own, object ≠ .this own) (ho : Derives s object) :
    Derives s (.member object word line) := by
  intro expected r h
  rw [typed] at h
  · by_cases context : s.isContext object = true
    · rw [if_pos context] at h
      split at h
      next hw =>
        cases h
        exact hw ▸ .caller context
      next => cases h
    · rw [if_neg context] at h
      obtain ⟨t, type, hf, h⟩ := Typed.value_of_term h
      exact yields_of_memberOf other (eq_false_of_ne_true context) (ho _ _ hf) h
  · exact other

theorem derives_member (ho : Derives s object) : Derives s (.member object word line) := by
  cases object with
  | this own => exact derives_field
  | _ => exact derives_member_of_ne nofun ho

theorem derives_index (ho : Derives s object) (hp : Derives s place) :
    Derives s (.index object place line) := by
  intro expected r h
  rw [typed] at h
  obtain ⟨t, type, hf, h⟩ := Typed.value_of_term h
  dsimp only at h
  split at h
  next element =>
    obtain ⟨p, type', hf', integer, h⟩ := Typed.value_of_place h
    obtain rfl := pure_eq_ok.mp h
    exact .element (ho _ _ hf) (hp _ _ hf') integer
  next => cases h

/-- A method that looks for a value, or the one that adds it. -/
theorem derives_method_of_one (ho : Derives s object) (target : DerivesTarget s object)
    (ha : Derives s argument) : Derives s (.method object word [argument] line) := by
  intro expected r h
  rw [typed] at h
  by_cases hw : (word = "indexOf" || word = "includes") = true
  · rw [if_pos hw] at h
    obtain ⟨t, type, hf, h⟩ := Typed.value_of_term h
    dsimp only at h
    split at h
    next element =>
      obtain ⟨a, hf', h⟩ := Typed.value_of_termOf h
      split at h
      next hw' =>
        obtain rfl := pure_eq_ok.mp h
        exact hw' ▸ .indexOf (ho _ _ hf) (ha _ _ hf')
      next hw' =>
        obtain rfl := pure_eq_ok.mp h
        have hw'' : word = "includes" := by simpa [hw'] using hw
        exact hw'' ▸ .includes (ho _ _ hf) (ha _ _ hf')
    next => cases h
  · rw [if_neg hw] at h
    split at h
    next push =>
      obtain ⟨whole, hf, h⟩ := bind_eq_ok.mp h
      split at h
      next element he =>
        obtain ⟨a, hf', h⟩ := Typed.value_of_termOf h
        obtain rfl := pure_eq_ok.mp h
        exact push ▸ .push (target _ _ hf) he (ha _ _ hf')
      next => cases h
    next => cases h

/-- With another number of arguments no method is accepted. -/
theorem derives_method_of_ne {arguments : List Expr} (other : ∀ a, arguments ≠ [a]) :
    Derives s (.method object word arguments line) := by
  intro expected r h
  rw [typed] at h
  · split at h <;> cases h
  · exact other

theorem derives_method {arguments : List Expr} (ho : Derives s object)
    (target : DerivesTarget s object) (each : ∀ a ∈ arguments, Derives s a) :
    Derives s (.method object word arguments line) := by
  by_cases one : ∃ a, arguments = [a]
  · obtain ⟨a, rfl⟩ := one
    exact derives_method_of_one ho target (each a List.mem_cons_self)
  · exact derives_method_of_ne fun a h => one ⟨a, h⟩

theorem derives_call_of_one (ha : Derives s argument) : Derives s (.call word [argument] line) := by
  intro expected r h
  rw [typed] at h
  split at h
  next hw =>
    obtain ⟨a, hf, h⟩ := Typed.value_of_termOf h
    obtain rfl := pure_eq_ok.mp h
    exact hw ▸ .error (ha _ _ hf)
  next => cases h

theorem derives_call_of_ne {arguments : List Expr} (other : ∀ a, arguments ≠ [a]) :
    Derives s (.call word arguments line) := by
  intro expected r h
  rw [typed] at h
  · split at h <;> cases h
  · exact other

theorem derives_call {arguments : List Expr} (each : ∀ a ∈ arguments, Derives s a) :
    Derives s (.call word arguments line) := by
  by_cases one : ∃ a, arguments = [a]
  · obtain ⟨a, rfl⟩ := one
    exact derives_call_of_one (each a List.mem_cons_self)
  · exact derives_call_of_ne fun a h => one ⟨a, h⟩

theorem derives_not (ho : Derives s operand) : Derives s (.unary .not operand line) := by
  intro expected r h
  rw [typed] at h
  obtain ⟨t, type, c, hf, condition, h⟩ := Typed.value_of_condition h
  obtain rfl := pure_eq_ok.mp h
  exact .not (ho _ _ hf) condition

theorem derives_negative {text : String} {own : Nat} :
    Derives s (.unary .negate (.number text own) line) := by
  intro expected r h
  rw [typed] at h
  obtain ⟨t, type, rfl⟩ := elaborates_of_literal h
  exact .negative h

theorem derives_negate_of_ne (other : ∀ text own, operand ≠ .number text own) (ho : Derives s operand) :
    Derives s (.unary .negate operand line) := by
  intro expected r h
  rw [typed] at h
  · obtain ⟨t, type, hf, h⟩ := Typed.value_of_term h
    dsimp only at h
    split at h
    next p =>
      split at h
      next signed =>
        obtain rfl := pure_eq_ok.mp h
        exact .negate other (ho _ _ hf) signed
      next => cases h
    next => cases h
  · exact other

theorem derives_negate (ho : Derives s operand) : Derives s (.unary .negate operand line) := by
  cases operand with
  | number text own => exact derives_negative
  | _ => exact derives_negate_of_ne nofun ho

theorem derives_binary {op : BinaryOp} (hl : Derives s left) (hr : Derives s right) :
    Derives s (.binary op left right line) := by
  intro expected r h
  rw [typed] at h
  by_cases logical : (op = .and || op = .or) = true
  · rw [if_pos logical] at h
    obtain ⟨t, type, a, ha, condition, h⟩ := Typed.value_of_condition h
    obtain ⟨t', type', b, hb, condition', h⟩ := Typed.value_of_condition h
    rcases (by simpa using logical : op = .and ∨ op = .or) with rfl | rfl
    · cases h
      exact .both (hl _ _ ha) condition (hr _ _ hb) condition'
    · cases h
      exact .either (hl _ _ ha) condition (hr _ _ hb) condition'
  rw [if_neg logical] at h
  have plain : op.isLogical = false := eq_false_of_ne_true logical
  -- the operand that is looked at first gives the other one its type
  by_cases untyped : left.isUntyped = true
  · rw [untyped, Bool.not_true, if_neg Bool.false_ne_true] at h
    by_cases untyped' : right.isUntyped = true
    · simp only [untyped', if_true, pure_bind] at h
      obtain ⟨a, own, ha, h⟩ := Typed.value_of_term h
      split at h
      next same =>
        obtain ⟨b, hb, h⟩ := Typed.value_of_termOf h
        obtain ⟨t, type', rfl, operates⟩ := operates_of_operation plain h
        have second := hr _ _ hb
        rw [same] at second operates
        exact .ofLiterals plain untyped untyped' (hl _ _ ha) same second operates
      next => cases h
    · simp only [if_neg untyped'] at h
      obtain ⟨r', hr', h⟩ := bind_eq_ok.mp h
      cases r' with
      | value b type =>
        simp only [pure_bind] at h
        obtain ⟨a, ha, h⟩ := Typed.value_of_termOf h
        obtain ⟨t, type', rfl, operates⟩ := operates_of_operation plain h
        exact .ofRight plain untyped (eq_false_of_ne_true untyped') (hr _ _ hr')
          (hl _ _ ha) operates
      | effect action =>
        -- an action is none whatever is expected of it
        simp only [pure_bind] at h
        obtain ⟨a, own, -, h⟩ := Typed.value_of_term h
        split at h
        next =>
          obtain ⟨b, hb, -⟩ := Typed.value_of_termOf h
          exact absurd (hr _ _ hr') (not_acts_of_elaborates (hr _ _ hb))
        next => cases h
  · have typed : left.isUntyped = false := eq_false_of_ne_true untyped
    rw [typed, Bool.not_false, if_pos rfl] at h
    obtain ⟨r', ha, h⟩ := bind_eq_ok.mp h
    cases r' with
    | value a type =>
      obtain ⟨b, hb, h⟩ := Typed.value_of_termOf h
      obtain ⟨t, type', rfl, operates⟩ := operates_of_operation plain h
      exact .ofLeft plain typed (hl _ _ ha) (hr _ _ hb) operates
    | effect action =>
      dsimp only at h
      split at h
      · obtain ⟨_, -, h⟩ := bind_eq_ok.mp h
        cases h
      · cases h

theorem derivesTarget_name : DerivesTarget s (.name word line) := by
  intro line' target h
  rw [targeted] at h
  split at h
  next => cases h
  next plain =>
    obtain ⟨⟨slot, type⟩, hs, h⟩ := bind_eq_ok.mp h
    obtain rfl := pure_eq_ok.mp h
    obtain ⟨found, rfl⟩ := scope_slot_eq_ok hs
    exact .name (eq_false_of_ne_true plain) found

theorem derivesTarget_field {own : Nat} : DerivesTarget s (.member (.this own) word line) := by
  intro line' target h
  rw [targeted] at h
  obtain ⟨type, ht, h⟩ := bind_eq_ok.mp h
  obtain rfl := pure_eq_ok.mp h
  exact .field (scope_field_eq_ok ht)

theorem derivesTarget_member_of_ne (other : ∀ own, object ≠ .this own) (ho : DerivesTarget s object) :
    DerivesTarget s (.member object word line) := by
  intro line' target h
  rw [targeted] at h
  · split at h
    next => cases h
    next plain =>
      obtain ⟨whole, hw, h⟩ := bind_eq_ok.mp h
      split at h
      next => cases h
      next name fields struct =>
        split at h
        next type found =>
          obtain rfl := pure_eq_ok.mp h
          exact .member other (eq_false_of_ne_true plain) (ho _ _ hw) struct found
        next => cases h
      next => cases h
  · exact other

theorem derivesTarget_member (ho : DerivesTarget s object) :
    DerivesTarget s (.member object word line) := by
  cases object with
  | this own => exact derivesTarget_field
  | _ => exact derivesTarget_member_of_ne nofun ho

theorem derivesTarget_index (ho : DerivesTarget s object) (hp : Derives s place) :
    DerivesTarget s (.index object place line) := by
  intro line' target h
  rw [targeted] at h
  obtain ⟨whole, hw, h⟩ := bind_eq_ok.mp h
  split at h
  next element array =>
    obtain ⟨p, type', hf, integer, h⟩ := Typed.value_of_place h
    obtain rfl := pure_eq_ok.mp h
    exact .element (ho _ _ hw) array (hp _ _ hf) integer
  next => cases h

end Constructors

mutual
/-- What the type checker accepts has a derivation. -/
theorem derives (s : Scope) : ∀ e, Derives s e ∧ DerivesTarget s e
  | .number _ _ => ⟨derives_number, nofun⟩
  | .string _ _ => ⟨derives_string, nofun⟩
  | .boolean _ _ => ⟨derives_boolean, nofun⟩
  | .array items _ => ⟨derives_array (derivesEach s items), nofun⟩
  | .name _ _ => ⟨derives_name, derivesTarget_name⟩
  | .this _ => ⟨nofun, nofun⟩
  | .member object _ _ =>
    ⟨derives_member (derives s object).1, derivesTarget_member (derives s object).2⟩
  | .index object place _ =>
    ⟨derives_index (derives s object).1 (derives s place).1,
      derivesTarget_index (derives s object).2 (derives s place).1⟩
  | .method object _ arguments _ =>
    ⟨derives_method (derives s object).1 (derives s object).2 (derivesEach s arguments), nofun⟩
  | .call _ arguments _ => ⟨derives_call (derivesEach s arguments), nofun⟩
  | .unary .not operand _ => ⟨derives_not (derives s operand).1, nofun⟩
  | .unary .negate operand _ => ⟨derives_negate (derives s operand).1, nofun⟩
  | .binary _ left right _ => ⟨derives_binary (derives s left).1 (derives s right).1, nofun⟩

theorem derivesEach (s : Scope) : ∀ (items : List Expr), ∀ e ∈ items, Derives s e
  | [], _, he => nomatch he
  | first :: rest, e, he => (List.mem_cons.mp he).elim (fun h => h ▸ (derives s first).1)
      (derivesEach s rest e)
end

theorem elaborates_of_typed {s : Scope} {expected : Option Ty} {e : Expr} {t : Term} {type : Ty}
    (h : e.typed s expected = .ok (.value t type)) : Elaborates s expected e t type :=
  (derives s e).1 _ _ h

theorem acts_of_typed {s : Scope} {expected : Option Ty} {e : Expr} {action : Action}
    (h : e.typed s expected = .ok (.effect action)) : e.Acts s action :=
  (derives s e).1 _ _ h

theorem targets_of_targeted {s : Scope} {line : Nat} {e : Expr} {target : Target}
    (h : e.targeted s line = .ok target) : e.Targets s target :=
  (derives s e).2 _ _ h

end Expr

end Covenant
