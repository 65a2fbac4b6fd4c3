import Covenant.Proofs.Code.Typing
import Covenant.Proofs.Compile.Lines
import Covenant.Proofs.Machine.Levels
import Covenant.Proofs.Value.Conformance
/-!
The types of the data of a state.

* `Machine.Conforms`: the values on the stack conform to some types, the members of the receiver to its
  fields, and each local to the type of its slot unless it is not set yet;
* `Machine.Conforms.loadThis` and its like: what each instruction makes of such a state;
* `Machine.execute_conforms`: so an instruction makes of it one with the types that it makes of those on the
  stack, when lists and texts are short and no unset slot is read that may not be absent;
* `Machine.ConformsAt.reaches`: so data conform to the types of the place wherever a run comes.
-/

namespace Covenant

structure Surroundings.Conform (r : Leaves) (schema : Schema) (s : Surroundings) : Prop where
  points : ∀ {k : Key}, k.IsPoint → r.key k
  caller : s.caller.Conforms r .publicKey
  records : ∀ {contract record d e}, schema.find? contract = some record →
    s.recordOf contract d = .ok e → e.Conforms r record.type.toTy

theorem IsLiteral.isScalar {p : Primitive} {d : Datum} (h : IsLiteral p d) : IsScalar p d := by
  cases h with
  | boolean b => exact .boolean b
  | string s => exact .string s
  | @single x => exact .single (Double.isSingle_roundSingle _ x)
  | @double x => exact .double x
  | integer range least greatest => exact .integer range least greatest

/-- An instruction that counts parts of a list or a text. -/
def Instruction.counts : Instruction Nat → Bool
  | .arrayLength | .arrayIndexOf | .textLength => true
  | _ => false

namespace Machine

open Code (linkInstruction literalValue)

/-- A state whose data conform to types. -/
structure Conforms (r : Leaves) (l : Layout) (types : List Ty) (m : Machine) : Prop where
  stack : List.Forall₂ (Datum.Conforms r) types m.stack
  locals : List.Forall₂ (fun type d => d = .null ∨ Datum.Conforms r type d) l.slots m.locals
  receiver : ∃ fields, m.receiver = .record fields ∧ Datum.FieldsConform r l.this.fields fields

/-- A state with short lists and texts on the stack. -/
def IsShort (m : Machine) : Prop := ∀ d ∈ m.stack, d.IsShort

instance (m : Machine) : Decidable m.IsShort :=
  inferInstanceAs (Decidable (∀ d ∈ m.stack, d.IsShort))

/-- What an instruction relies on besides types: it counts the parts of short lists and texts only, and
reads no slot that is not set unless its type may be absent. -/
structure Suits (r : Leaves) (l : Layout) (i : Instruction Nat) (m : Machine) : Prop where
  short : i.counts = true → m.IsShort
  set : ∀ slot type, i = .loadLocal slot → l.slots[slot]? = some type →
    m.locals[slot]? = some .null → r.absent type

theorem Suits.of_isLast {r : Leaves} {l : Layout} {i : Instruction Nat} {m : Machine}
    (leaves : i.isLast = true) : Suits r l i m where
  short := by
    intro counts
    cases i <;> first | (cases leaves; done) | cases counts
  set := by
    rintro slot type rfl
    cases leaves

/-- What a step can come to: a state with some types on the stack, or the end with a value of the type of
the result. -/
def Preserves (r : Leaves) (l : Layout) (result : Option Ty) (types : List Ty) :
    Except Failure (Option Departure) × Machine → Prop
  | (.ok none, m) => m.Conforms r l types
  | (.ok (some .plain), m) => m.Conforms r l types ∧ result = none
  | (.ok (some (.value d)), m) => m.Conforms r l types ∧ ∃ type, result = some type ∧ d.Conforms r type
  | (.error _, _) => True

section
variable {r : Leaves} {l : Layout} {result : Option Ty} {types : List Ty} {type : Ty}

theorem Conforms.moved {m : Machine} (h : m.Conforms r l types) (place steps computed : Nat) :
    Conforms r l types { m with place, steps, computed } :=
  ⟨h.stack, h.locals, h.receiver⟩

/-- The value on top of the stack, and the state without it. -/
theorem Conforms.exists_top {m : Machine} (h : m.Conforms r l (type :: types)) :
    ∃ (d : Datum) (below : Machine), m = { below with stack := d :: below.stack } ∧
      d.Conforms r type ∧ below.Conforms r l types := by
  obtain ⟨stack, locals, receiver⟩ := h
  cases held : m.stack with
  | nil =>
    rw [held] at stack
    cases stack
  | cons d st =>
    rw [held] at stack
    cases stack with
    | cons first below =>
      exact ⟨d, { m with stack := st }, by rw [← held], first, below, locals, receiver⟩

theorem Preserves.answer {m : Machine} (h : m.Conforms r l types) {x : Except Failure Datum}
    (each : ∀ d, x = .ok d → d.Conforms r type) :
    Preserves r l result (type :: types) (Machine.answer x m) := by
  cases x with
  | ok d => exact ⟨.cons (each d rfl) h.stack, h.locals, h.receiver⟩
  | error f => trivial

/-- An answer that is a truth value. -/
theorem Preserves.test {m : Machine} (h : m.Conforms r l types) {x : Except Misuse Bool} :
    Preserves r l result (.boolean :: types) (Machine.answer (Failure.lift (Datum.boolean <$> x)) m) := by
  refine .answer h fun d hd => ?_
  obtain ⟨b, -, rfl⟩ := map_eq_ok.mp (Failure.lift_eq_ok.mp hd)
  exact .boolean b

theorem Preserves.storing {place : Place} {v : Datum} {m : Machine}
    {x : Except Failure (Option Departure) × Machine} (h : Preserves r l result types x) :
    Preserves r l result types (Machine.storing place v m x) := by
  cases v <;> first | exact h | trivial

/-- The values that a new list takes from the stack. -/
theorem exists_items {count : Nat} {st : List Datum}
    (h : List.Forall₂ (Datum.Conforms r) (List.replicate count type ++ types) st) :
    ∃ items rest, st = List.reverse items ++ rest ∧ items.length = count ∧
      (∀ d ∈ items, d.Conforms r type) ∧ List.Forall₂ (Datum.Conforms r) types rest := by
  induction count generalizing st with
  | zero => exact ⟨[], st, rfl, rfl, by simp, h⟩
  | succ count ih =>
    rw [List.replicate_succ, List.cons_append] at h
    cases h with
    | @cons _ d _ _ first others =>
      obtain ⟨items, rest, rfl, length, each, below⟩ := ih others
      refine ⟨items ++ [d], rest, by simp, by simp [length], fun e he => ?_, below⟩
      rcases List.mem_append.mp he with he | he
      · exact each e he
      · rw [List.mem_singleton.mp he]
        exact first

theorem slotValue_conforms {lo : List Datum} {slots : List Ty}
    (h : List.Forall₂ (fun type d => d = .null ∨ Datum.Conforms r type d) slots lo) {slot : Nat}
    (held : slots[slot]? = some type) (set : lo[slot]? = some .null → r.absent type) {d : Datum}
    (hd : slotValue lo slot = .ok d) : d.Conforms r type := by
  unfold slotValue at hd
  split at hd
  next d' here =>
    cases hd
    rcases (List.forall₂_iff_get.mp h).2 slot (List.getElem?_eq_some_iff.mp held).1
      (List.getElem?_eq_some_iff.mp here).1 with null | conforms
    · obtain ⟨inside, rfl⟩ := List.getElem?_eq_some_iff.mp here
      rw [List.get_eq_getElem] at null
      rw [null] at here ⊢
      exact .absent (set here)
    · obtain ⟨inside, rfl⟩ := List.getElem?_eq_some_iff.mp here
      obtain ⟨inside', rfl⟩ := List.getElem?_eq_some_iff.mp held
      exact conforms
  next => cases hd

theorem locals_conform_set {lo : List Datum} {slots : List Ty}
    (h : List.Forall₂ (fun type d => d = .null ∨ Datum.Conforms r type d) slots lo) {slot : Nat}
    (held : slots[slot]? = some type) {d : Datum} (hd : d.Conforms r type) :
    List.Forall₂ (fun type d => d = .null ∨ Datum.Conforms r type d) slots (lo.set slot d) := by
  induction h generalizing slot with
  | nil => cases held
  | cons first others ih =>
    cases slot with
    | zero =>
      cases held
      exact .cons (.inr hd) others
    | succ slot => exact .cons first (ih held)

/-! ### Literals, fields, locals and the caller -/

section
variable {s : Surroundings} {m : Machine} {name word contract : String} {slot count target : Nat}
  {fields : List (String × Ty)} {other : Ty}

namespace Conforms

theorem push (h : m.Conforms r l types) (kind : PushKind) {d : Datum} (hd : d.Conforms r type) :
    Preserves r l result (type :: types) ((execute s (.push kind d)).run m) := by
  rw [execute_push]
  refine .answer h fun d' same => ?_
  cases same
  exact hd

theorem loadThis (h : m.Conforms r l types) (held : l.this.field? name = some type) :
    Preserves r l result (type :: types) ((execute s (.loadThis name)).run m) := by
  rw [execute_loadThis]
  refine .answer h fun d hd => ?_
  obtain ⟨fields, receiver, all⟩ := h.receiver
  obtain ⟨e, found, conforms⟩ := all.lookup held
  rw [Failure.lift_eq_ok, receiver, Datum.member, found] at hd
  cases hd
  exact conforms

theorem storeThis (h : m.Conforms r l (type :: types)) (held : l.this.field? name = some type) :
    Preserves r l result types ((execute s (.storeThis name)).run m) := by
  obtain ⟨d, m, rfl, first, below⟩ := h.exists_top
  obtain ⟨fields, receiver, all⟩ := below.receiver
  rw [execute_storeThis, receiver]
  exact .storing ⟨below.stack, below.locals, _, rfl, all.set held first⟩

theorem loadLocal (h : m.Conforms r l types) (held : l.slots[slot]? = some type)
    (set : m.locals[slot]? = some .null → r.absent type) :
    Preserves r l result (type :: types) ((execute s (.loadLocal slot)).run m) := by
  rw [execute_loadLocal]
  exact .answer h fun d hd => slotValue_conforms h.locals held set hd

theorem storeLocal (h : m.Conforms r l (type :: types)) (held : l.slots[slot]? = some type) :
    Preserves r l result types ((execute s (.storeLocal slot)).run m) := by
  obtain ⟨d, m, rfl, first, below⟩ := h.exists_top
  rw [execute_storeLocal]
  split
  · exact ⟨below.stack, locals_conform_set below.locals held first, below.receiver⟩
  · trivial

theorem loadContext (h : m.Conforms r l types) (caller : s.caller.Conforms r .publicKey) :
    Preserves r l result (.publicKey :: types) ((execute s (.loadContext name)).run m) := by
  rw [execute_loadContext]
  refine .answer h fun d hd => ?_
  cases hd
  exact caller

/-! ### Structs and records -/

theorem getField (h : m.Conforms r l (.struct name fields :: types))
    (held : fields.lookup word = some type) :
    Preserves r l result (type :: types) ((execute s (.getField word)).run m) := by
  obtain ⟨whole, m, rfl, first, below⟩ := h.exists_top
  rw [execute_getField]
  exact .answer below fun d hd => first.member held (Failure.lift_eq_ok.mp hd)

theorem setField (h : m.Conforms r l (type :: .struct name fields :: types))
    (held : fields.lookup word = some type) :
    Preserves r l result (.struct name fields :: types) ((execute s (.setField word)).run m) := by
  obtain ⟨v, m, rfl, value, under⟩ := h.exists_top
  obtain ⟨whole, m, rfl, first, below⟩ := under.exists_top
  rw [execute_setField]
  exact .storing (.answer below fun d hd => first.withMember held value (Failure.lift_eq_ok.mp hd))

theorem deref {record : RecordSchema} (h : m.Conforms r l (.reference name :: types))
    (records : ∀ {d e}, s.recordOf contract d = .ok e → e.Conforms r record.type.toTy) :
    Preserves r l result (record.type.toTy :: types) ((execute s (.deref contract)).run m) := by
  obtain ⟨reference, m, rfl, -, below⟩ := h.exists_top
  rw [execute_deref]
  exact .answer below fun d hd => records hd

/-! ### Lists and texts -/

theorem arrayNew (h : m.Conforms r l (List.replicate count type ++ types)) :
    Preserves r l result (.array type :: types) ((execute s (.arrayNew count)).run m) := by
  obtain ⟨st, lo, receiver, p, n, c⟩ := m
  obtain ⟨items, rest, held, rfl, each, below⟩ := exists_items h.stack
  dsimp only at held
  subst held
  have under : Conforms r l types ⟨rest, lo, receiver, p, n, c⟩ := ⟨below, h.locals, h.receiver⟩
  rw [execute_arrayNew]
  refine .answer under fun d hd => ?_
  cases hd
  exact .array each

theorem arrayLength (h : m.Conforms r l (.array type :: types)) (short : m.IsShort) :
    Preserves r l result (.u32 :: types) ((execute s .arrayLength).run m) := by
  obtain ⟨whole, m, rfl, first, below⟩ := h.exists_top
  rw [execute_arrayLength]
  refine .answer below fun d hd => ?_
  obtain ⟨size, hs, rfl⟩ := map_eq_ok.mp (Failure.lift_eq_ok.mp hd)
  exact first.arraySize (short _ List.mem_cons_self) hs

theorem textLength (h : m.Conforms r l (.string :: types)) (short : m.IsShort) :
    Preserves r l result (.u32 :: types) ((execute s .textLength).run m) := by
  obtain ⟨whole, m, rfl, first, below⟩ := h.exists_top
  rw [execute_textLength]
  refine .answer below fun d hd => ?_
  obtain ⟨size, hs, rfl⟩ := map_eq_ok.mp (Failure.lift_eq_ok.mp hd)
  exact first.textSize (short _ List.mem_cons_self) hs

theorem arrayGet (h : m.Conforms r l (other :: .array type :: types)) :
    Preserves r l result (type :: types) ((execute s .arrayGet).run m) := by
  obtain ⟨index, m, rfl, -, under⟩ := h.exists_top
  obtain ⟨whole, m, rfl, first, below⟩ := under.exists_top
  rw [execute_arrayGet]
  exact .answer below fun d hd => first.element hd

theorem arraySet (h : m.Conforms r l (type :: other :: .array type :: types)) :
    Preserves r l result (.array type :: types) ((execute s .arraySet).run m) := by
  obtain ⟨v, m, rfl, value, above⟩ := h.exists_top
  obtain ⟨index, m, rfl, -, under⟩ := above.exists_top
  obtain ⟨whole, m, rfl, first, below⟩ := under.exists_top
  rw [execute_arraySet]
  exact .storing (.answer below fun d hd => first.withElement value hd)

theorem arrayPush (h : m.Conforms r l (type :: .array type :: types)) :
    Preserves r l result (.array type :: types) ((execute s .arrayPush).run m) := by
  obtain ⟨v, m, rfl, value, under⟩ := h.exists_top
  obtain ⟨whole, m, rfl, first, below⟩ := under.exists_top
  rw [execute_arrayPush]
  exact .storing (.answer below fun d hd => first.appended value (Failure.lift_eq_ok.mp hd))

theorem arrayIndexOf (h : m.Conforms r l (other :: .array type :: types)) (short : m.IsShort) :
    Preserves r l result (.i32 :: types) ((execute s .arrayIndexOf).run m) := by
  obtain ⟨wanted, m, rfl, -, under⟩ := h.exists_top
  obtain ⟨whole, m, rfl, first, below⟩ := under.exists_top
  rw [execute_arrayIndexOf]
  have size := short _ (List.mem_cons_of_mem _ List.mem_cons_self)
  exact .answer below fun d hd => first.indexOf size (Failure.lift_eq_ok.mp hd)

theorem concat (h : m.Conforms r l (.string :: .string :: types)) :
    Preserves r l result (.string :: types) ((execute s .concat).run m) := by
  obtain ⟨b, m, rfl, right, under⟩ := h.exists_top
  obtain ⟨a, m, rfl, left, below⟩ := under.exists_top
  rw [execute_concat]
  exact .answer (below.moved _ _ _) fun d hd => left.join right (Failure.lift_eq_ok.mp hd)

/-! ### Tests -/

theorem arrayIncludes (h : m.Conforms r l (other :: .array type :: types)) :
    Preserves r l result (.boolean :: types) ((execute s .arrayIncludes).run m) := by
  obtain ⟨wanted, m, rfl, -, under⟩ := h.exists_top
  obtain ⟨whole, m, rfl, -, below⟩ := under.exists_top
  rw [execute_arrayIncludes]
  exact .test below

theorem compare (c : Comparison) (h : m.Conforms r l (other :: type :: types)) :
    Preserves r l result (.boolean :: types) ((execute s (.compare c)).run m) := by
  obtain ⟨b, m, rfl, -, under⟩ := h.exists_top
  obtain ⟨a, m, rfl, -, below⟩ := under.exists_top
  rw [execute_compare]
  exact .test below

theorem keyMatch (h : m.Conforms r l (other :: type :: types)) :
    Preserves r l result (.boolean :: types) ((execute s .keyMatch).run m) := by
  obtain ⟨b, m, rfl, -, under⟩ := h.exists_top
  obtain ⟨a, m, rfl, -, below⟩ := under.exists_top
  rw [execute_keyMatch]
  exact .test (x := .ok _) below

theorem not (h : m.Conforms r l (type :: types)) :
    Preserves r l result (.boolean :: types) ((execute s .not).run m) := by
  obtain ⟨a, m, rfl, -, below⟩ := h.exists_top
  rw [execute_not]
  exact .test (x := .ok _) below

theorem truthy (h : m.Conforms r l (type :: types)) :
    Preserves r l result (.boolean :: types) ((execute s .truthy).run m) := by
  obtain ⟨a, m, rfl, -, below⟩ := h.exists_top
  rw [execute_truthy]
  exact .test (x := .ok _) below

/-! ### Moves and ends -/

theorem jumpIfFalse (h : m.Conforms r l (type :: types)) :
    Preserves r l result types ((execute s (.jumpIfFalse target)).run m) := by
  obtain ⟨a, m, rfl, -, below⟩ := h.exists_top
  rw [execute_jumpIfFalse]
  exact below.moved _ _ _

theorem jumpIfTrue (h : m.Conforms r l (type :: types)) :
    Preserves r l result types ((execute s (.jumpIfTrue target)).run m) := by
  obtain ⟨a, m, rfl, -, below⟩ := h.exists_top
  rw [execute_jumpIfTrue]
  exact below.moved _ _ _

theorem dup (h : m.Conforms r l (type :: types)) :
    Preserves r l result (type :: type :: types) ((execute s .dup).run m) := by
  obtain ⟨a, m, rfl, first, below⟩ := h.exists_top
  exact ⟨.cons first (.cons first below.stack), below.locals, below.receiver⟩

theorem drop (h : m.Conforms r l (type :: types)) :
    Preserves r l result types ((execute s .drop).run m) := by
  obtain ⟨a, m, rfl, -, below⟩ := h.exists_top
  exact below

theorem abort (h : m.Conforms r l (type :: types)) :
    Preserves r l result types ((execute s .abort).run m) := by
  obtain ⟨a, m, rfl, -, -⟩ := h.exists_top
  trivial

theorem leaveValue (h : m.Conforms r l (type :: types)) (returns : result = some type) :
    Preserves r l result types ((execute s .leaveValue).run m) := by
  obtain ⟨a, m, rfl, first, below⟩ := h.exists_top
  exact ⟨below, _, returns, first⟩

/-! ### Arithmetic -/

theorem arith {op : Arith} {p : Primitive} (binary : op.isBinary = true) (numeric : p.isNumeric = true)
    (h : m.Conforms r l (.primitive p :: .primitive p :: types)) :
    Preserves r l result (.primitive p :: types) ((execute s (.arith op p)).run m) := by
  have other : op ≠ .neg := by
    rintro rfl
    cases binary
  obtain ⟨b, m, rfl, right, under⟩ := h.exists_top
  obtain ⟨a, m, rfl, left, below⟩ := under.exists_top
  rw [execute_arith _ _ _ _ _ _ _ other]
  exact .answer (below.moved _ _ _) fun d hd => Datum.conforms_of_arith numeric (fun x hx =>
    Datum.raw_number binary (left.isOperand numeric) (right.isOperand numeric) hx) hd

theorem negate {p : Primitive} (numeric : p.isNumeric = true)
    (h : m.Conforms r l (.primitive p :: types)) :
    Preserves r l result (.primitive p :: types) ((execute s (.arith .neg p)).run m) := by
  obtain ⟨a, m, rfl, first, below⟩ := h.exists_top
  rw [execute_negate]
  exact .answer (below.moved _ _ _) fun d hd => Datum.conforms_of_arith numeric (fun x hx =>
    Datum.raw_neg (first.isOperand numeric) hx) hd

end Conforms

end

/-! ### Instructions -/

/-- What linking only checks stays as it is. -/
theorem eq_of_checked {α : Type} {check : Except LinkFault α} {i j : Instruction Nat}
    (h : (check >>= fun _ => pure i) = .ok j) : i = j := by
  obtain ⟨-, -, same⟩ := bind_eq_ok.mp h
  exact pure_eq_ok.mp same

/-- An instruction keeps data that conform to the types on the stack, of the locals and of the receiver. -/
theorem execute_conforms {abi : Abi} {header : Header} {labels : List (String × Nat)} {s : Surroundings}
    {m : Machine} {types' : List Ty} {i : Instruction String} {j : Instruction Nat}
    (surroundings : s.Conform r l.schema) (linked : linkInstruction abi header labels i = .ok j)
    (typed : i.Typed l result types types') (h : m.Conforms r l types) (suits : Suits r l j m) :
    Preserves r l result types' ((execute s j).run m) := by
  cases typed with
  | literal hd =>
    rw [linkInstruction, literalValue_of_isLiteral hd] at linked
    cases linked
    exact h.push _ (.scalar hd.isScalar)
  | key point =>
    simp only [linkInstruction, literalValue, Key.ofHex_toHex point] at linked
    cases linked
    exact h.push _ (.publicKey (surroundings.points point))
  | loadThis held =>
    obtain rfl := eq_of_checked linked
    exact h.loadThis held
  | storeThis held =>
    obtain rfl := eq_of_checked linked
    exact h.storeThis held
  | loadLocal held =>
    obtain rfl := eq_of_checked linked
    exact h.loadLocal held (suits.set _ _ rfl held)
  | storeLocal held =>
    obtain rfl := eq_of_checked linked
    exact h.storeLocal held
  | loadContext =>
    rw [linkInstruction] at linked
    split at linked <;> cases linked
    exact h.loadContext surroundings.caller
  | deref known =>
    rw [linkInstruction] at linked
    split at linked <;> cases linked
    exact h.deref (surroundings.records known)
  | jump =>
    obtain ⟨target, -, linked⟩ := bind_eq_ok.mp linked
    obtain rfl := pure_eq_ok.mp linked
    exact h.moved target _ _
  | jumpIfFalse =>
    obtain ⟨target, -, linked⟩ := bind_eq_ok.mp linked
    obtain rfl := pure_eq_ok.mp linked
    exact h.jumpIfFalse
  | jumpIfTrue =>
    obtain ⟨target, -, linked⟩ := bind_eq_ok.mp linked
    obtain rfl := pure_eq_ok.mp linked
    exact h.jumpIfTrue
  | getField held =>
    cases linked
    exact h.getField held
  | setField held =>
    cases linked
    exact h.setField held
  | arrayNew =>
    cases linked
    exact h.arrayNew
  | arrayLength =>
    cases linked
    exact h.arrayLength (suits.short rfl)
  | textLength =>
    cases linked
    exact h.textLength (suits.short rfl)
  | arrayGet =>
    cases linked
    exact h.arrayGet
  | arraySet =>
    cases linked
    exact h.arraySet
  | arrayPush =>
    cases linked
    exact h.arrayPush
  | arrayIndexOf =>
    cases linked
    exact h.arrayIndexOf (suits.short rfl)
  | arrayIncludes =>
    cases linked
    exact h.arrayIncludes
  | concat =>
    cases linked
    exact h.concat
  | compare =>
    cases linked
    exact h.compare _
  | keyMatch =>
    cases linked
    exact h.keyMatch
  | not =>
    cases linked
    exact h.not
  | truthy =>
    cases linked
    exact h.truthy
  | dup =>
    cases linked
    exact h.dup
  | drop =>
    cases linked
    exact h.drop
  | abort =>
    cases linked
    exact h.abort
  | abortUnauthorized =>
    cases linked
    trivial
  | leave none =>
    cases linked
    exact ⟨h, none⟩
  | leaveValue some =>
    cases linked
    exact h.leaveValue some
  | arith binary numeric =>
    cases linked
    exact h.arith binary numeric
  | negate numeric =>
    cases linked
    exact h.negate numeric

/-! ### Runs -/

variable {abi : Abi} {header : Header} {labels : List (String × Nat)} {code : LinkedCode}
  {levels : Nat → Option (List Ty)} {s : Surroundings}

/-- A state whose data conform to the types of its place. -/
def ConformsAt (r : Leaves) (l : Layout) (levels : Nat → Option (List Ty)) (m : Machine) : Prop :=
  ∃ types, levels m.place = some types ∧ m.Conforms r l types

/-- What a step comes to where data conform to the types of the place, if they suit the instruction. -/
theorem ConformsAt.meets
    (typed : Code.LevelsOf (Instruction.Typed l result) abi header labels code levels)
    (surroundings : s.Conform r l.schema) {m : Machine} (h : m.ConformsAt r l levels)
    {x : Except Failure (Option Departure) × Machine} (hs : step code s m = some x) :
    ∃ j types, code[m.place]? = some j ∧ (∀ next ∈ j.successors m.place, levels next = some types) ∧
      Meets j { m with steps := m.steps + 1, place := m.place + 1 } x ∧
      (Suits r l j m → Preserves r l result types x) := by
  obtain ⟨types, level, conforms⟩ := h
  obtain ⟨i, j, made, linked, here, makes, next, meets⟩ :=
    typed.meets level conforms.stack.length_eq hs
  obtain ⟨j', here', rfl⟩ := instruction_of_step hs
  obtain rfl : j = j' := Option.some.inj (here.symm.trans here')
  have advanced : Conforms r l types { m with steps := m.steps + 1, place := m.place + 1 } :=
    ⟨conforms.stack, conforms.locals, conforms.receiver⟩
  exact ⟨j, made, here, next, meets,
    fun suits => execute_conforms surroundings linked makes advanced ⟨suits.short, suits.set⟩⟩

/-- Wherever a run comes, data conform to the types of the place, as long as they suit instructions. -/
theorem ConformsAt.reaches
    (typed : Code.LevelsOf (Instruction.Typed l result) abi header labels code levels)
    (surroundings : s.Conform r l.schema) {m m' : Machine} {n : Nat} (h : m.ConformsAt r l levels)
    (reached : Reaches code s m n m')
    (suits : ∀ k a j, k < n → Reaches code s m k a → code[a.place]? = some j → Suits r l j a) :
    m'.ConformsAt r l levels := by
  induction reached with
  | refl => exact h
  | @next m m₁ m' n hs _ ih =>
    obtain ⟨j, types, here, level, moves, preserves⟩ := h.meets typed surroundings hs
    have conforms := preserves (suits 0 m j (Nat.succ_pos n) (.refl m) here)
    exact ih ⟨types, level _ (moves.next _ rfl), conforms⟩
      fun k a j early ha => suits (k + 1) a j (Nat.succ_lt_succ early) (.next hs ha)

/-- When a function leaves, data conform to types, and a value that it leaves with to the type of its
result. -/
theorem ConformsAt.departs
    (typed : Code.LevelsOf (Instruction.Typed l result) abi header labels code levels)
    (surroundings : s.Conform r l.schema) {m m' : Machine} (h : m.ConformsAt r l levels)
    {departure : Departure} (hs : step code s m = some (.ok (some departure), m')) :
    ∃ types, Preserves r l result types (.ok (some departure), m') := by
  obtain ⟨j, types, -, -, leaves, preserves⟩ := h.meets typed surroundings hs
  exact ⟨types, preserves (.of_isLast leaves)⟩

end

end Machine

end Covenant
