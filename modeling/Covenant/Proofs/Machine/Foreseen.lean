import Covenant.Proofs.Machine.Conformance
/-!
Operations have a meaning for data of their types.

* `Foreseen`: a computation that comes to something, or fails in a way that the language foresees;
* `Datum.Conforms.exists_list`, `.exists_text` and others: what a datum of a type is that may not be absent;
* `Datum.foreseen_arith`: arithmetic on numbers of a type, but for the remainder of infinity;
* `Machine.Conforms.foreseen_getField` and its like: how each instruction ends where data conform to types;
* `Machine.ConformsAt.foreseen`: so an instruction fails as the language foresees where data conform to
  the types of its place.
-/

namespace Covenant

/-- A computation that does not fail for want of a meaning. -/
def Foreseen {α : Type} (r : Except Failure α) : Prop := ∀ why, r ≠ .error (.misuse why)

namespace Foreseen

variable {α β : Type}

theorem ok (a : α) : Foreseen (.ok a) := nofun

theorem error {f : Failure} (h : ∀ why, f ≠ .misuse why) : Foreseen (.error f : Except Failure α) :=
  fun why same => h why (Except.error.inj same)

theorem lift {r : Except Misuse α} (h : ∃ a, r = .ok a) : Foreseen (Failure.lift r) := by
  obtain ⟨a, rfl⟩ := h
  exact ok a

theorem bind {r : Except Failure α} {g : α → Except Failure β} (hr : Foreseen r)
    (hg : ∀ a, r = .ok a → Foreseen (g a)) : Foreseen (r >>= g) := by
  cases r with
  | ok a => exact hg a rfl
  | error f =>
    intro why h
    cases h
    exact hr why rfl

theorem answer {r : Except Failure Datum} (h : Foreseen r) (m : Machine) :
    Foreseen (Machine.answer r m).1 := by
  cases r with
  | ok d => exact ok _
  | error f =>
    intro why same
    cases same
    exact h why rfl

theorem storing {x : Except Failure (Option Machine.Departure) × Machine} (h : Foreseen x.1)
    (place : Place) (v : Datum) (m : Machine) : Foreseen (Machine.storing place v m x).1 := by
  cases v <;> first | exact h | exact nofun

end Foreseen

namespace Datum

/-! ## Data that are there -/

namespace Conforms

variable {r : Leaves} {d e : Datum} {type : Ty} {name word : String} {types : List (String × Ty)}

section
variable (keys : ∀ type, r.absent type → type = .publicKey)
include keys

theorem exists_list (h : Conforms r (.array type) d) :
    ∃ items, d = .list items ∧ ∀ e ∈ items, Conforms r type e := by
  cases h with
  | absent h => cases keys _ h
  | array each => exact ⟨_, rfl, each⟩

theorem exists_record (h : Conforms r (.struct name types) d) :
    ∃ fields, d = .record fields ∧ FieldsConform r types fields := by
  cases h with
  | absent h => cases keys _ h
  | struct all => exact ⟨_, rfl, all⟩

theorem exists_reference (h : Conforms r (.reference name) d) : ∃ id, d = .bytes id := by
  cases h with
  | absent h => cases keys _ h
  | reference => exact ⟨_, rfl⟩

theorem isScalar {p : Primitive} (h : Conforms r (.primitive p) d) : IsScalar p d := by
  cases h with
  | absent h => cases keys _ h
  | scalar h => exact h

theorem exists_text (h : Conforms r .string d) : ∃ s, d = .text s := by
  cases h.isScalar keys with
  | string s => exact ⟨s, rfl⟩
  | integer range => cases range

theorem exists_number {p : Primitive} (numeric : p.isNumeric = true)
    (h : Conforms r (.primitive p) d) : ∃ n : Number, n.Suits p.isFloat ∧ d = n.toDatum := by
  rcases h.isOperand numeric with rfl | number
  · cases h.isScalar keys
  · exact number

theorem exists_integer (integer : type.isInteger = true) (h : Conforms r type d) :
    ∃ i, d = .integer i := by
  cases type with
  | primitive p =>
    cases h.isScalar keys with
    | integer => exact ⟨_, rfl⟩
    | boolean | string | bytes | single | double => cases integer
  | _ => cases integer

end

end Conforms

/-! ## Parts -/

theorem foreseen_checkPlace (i : Int) (n : Nat) : Foreseen (checkPlace (.integer i) (.ok n)) := by
  rw [checkPlace_of_whole rfl]
  split
  · exact .ok _
  · exact .error nofun

theorem foreseen_element (items : List Datum) (i : Int) :
    Foreseen ((Datum.list items).element (.integer i)) := by
  refine .bind (foreseen_checkPlace i items.length) fun u hu => ?_
  obtain ⟨nonneg, below⟩ := range_of_checkPlace rfl hu
  have inside : i.toNat < items.length := by omega
  refine .bind (.ok _) fun k hk => ?_
  cases hk
  refine .bind (.ok _) fun parts hp => ?_
  cases hp
  rw [List.getElem?_eq_getElem inside]
  exact .ok _

theorem foreseen_withElement (items : List Datum) (i : Int) (value : Datum) :
    Foreseen ((Datum.list items).withElement (.integer i) value) := by
  refine .bind (.ok _) fun parts hp => ?_
  cases hp
  exact .bind (foreseen_checkPlace i items.length) fun _ _ => .bind (.ok _) fun _ _ => .ok _

/-- Numbers and texts have an order. -/
theorem exists_holds {r : Leaves} (keys : ∀ type, r.absent type → type = .publicKey) {c : Comparison}
    {type : Ty} (suits : c.Suits type) {a b : Datum} (ha : Conforms r type a) (hb : Conforms r type b) :
    ∃ x, c.holds a b = .ok x := by
  have ordered : ∀ o : Order, (type.isNumeric = true ∨ type = .string) → ∃ x, a.order o b = .ok x := by
    rintro o (numeric | rfl)
    · cases type with
      | primitive p =>
        obtain ⟨m, hm, rfl⟩ := ha.exists_number keys numeric
        obtain ⟨n, hn, rfl⟩ := hb.exists_number keys numeric
        generalize p.isFloat = isFloat at hm hn
        cases hm <;> cases hn <;> exact ⟨_, rfl⟩
      | _ => cases numeric
    · obtain ⟨s, rfl⟩ := ha.exists_text keys
      obtain ⟨t, rfl⟩ := hb.exists_text keys
      exact ⟨_, rfl⟩
  rcases suits with rfl | rfl | suits
  · exact ⟨_, rfl⟩
  · exact ⟨_, rfl⟩
  · cases c with
    | equal | notEqual => exact ⟨_, rfl⟩
    | less | lessEqual | greater | greaterEqual => exact ordered _ suits

/-! ## Arithmetic -/

def isInfinite : Datum → Bool
  | .float x => x.isInfinite
  | _ => false

theorem exists_truncatedQuotient (origin : Origin) (i j : Int) :
    ∃ k, Number.truncatedQuotient origin (.whole i) (.whole j) = .ok (.whole k) := by
  unfold Number.truncatedQuotient
  split <;> exact ⟨_, rfl⟩

/-- An operation on numbers of one kind makes a number, but for the remainder of infinity. -/
theorem exists_raw (origin : Origin) {isFloat : Bool} {op : Arith} (binary : op.isBinary = true)
    {m n : Number} (hm : m.Suits isFloat) (hn : n.Suits isFloat)
    (finite : op = .mod → m.toDatum.isInfinite = false) :
    ∃ x, raw origin op isFloat m.toDatum n.toDatum = .ok x := by
  cases hm with
  | whole i =>
    cases hn with
    | whole j =>
      obtain ⟨k, hk⟩ := exists_truncatedQuotient origin i j
      cases op with
      | neg | other => cases binary
      | add | sub | mul => exact ⟨_, rfl⟩
      | div => exact ⟨.integer k, bind_eq_ok.mpr ⟨_, rfl, bind_eq_ok.mpr ⟨_, rfl,
          bind_eq_ok.mpr ⟨_, hk, rfl⟩⟩⟩⟩
      | mod => exact ⟨.integer (i - j * k), bind_eq_ok.mpr ⟨_, rfl, bind_eq_ok.mpr ⟨_, rfl,
          bind_eq_ok.mpr ⟨_, hk, rfl⟩⟩⟩⟩
  | double x =>
    cases hn with
    | double y =>
      cases op with
      | neg | other => cases binary
      | add | sub | mul | div => exact ⟨_, rfl⟩
      | mod =>
        have some : ∃ z, x.rem origin y = some z := by
          have bounded : ¬x.isInfinite = true := Bool.not_eq_true _ ▸ finite rfl
          rw [Double.rem, if_neg bounded]
          split
          · exact ⟨_, rfl⟩
          · split <;> exact ⟨_, rfl⟩
        obtain ⟨z, hz⟩ := some
        refine ⟨.float z, bind_eq_ok.mpr ⟨_, rfl, bind_eq_ok.mpr ⟨_, rfl, ?_⟩⟩⟩
        simp only [if_true, Number.toDouble, ok_bind, hz]
        rfl

theorem raw_negates {isFloat : Bool} {origin : Origin} {n : Number} {b : Datum} (h : n.Suits isFloat) :
    raw origin .neg isFloat n.toDatum b = .ok (n.neg origin).toDatum := by
  cases h <;> rfl

/-- Arithmetic of a type of numbers fails only by a zero divisor or by overflow, when the operation
itself makes a number. -/
theorem foreseen_arith {origin : Origin} {op : Arith} {p : Primitive} (numeric : p.isNumeric = true)
    {a b : Datum} {n : Number} (suits : n.Suits p.isFloat)
    (made : raw origin op p.isFloat a b = .ok n.toDatum) : Foreseen (arith origin op p a b) := by
  unfold arith
  split
  · exact .error nofun
  rw [made]
  refine .bind (.ok _) fun x hx => ?_
  cases hx
  split
  next => exact .ok _
  next notDouble =>
    split
    next single =>
      obtain rfl : p = .f32 := by simpa using single
      cases suits
      exact .ok _
    next notSingle =>
      have whole : p.isFloat = false := by
        cases p <;> first | rfl | exact absurd rfl notDouble | exact absurd rfl notSingle
      rw [whole] at suits
      cases suits with
      | whole i =>
        obtain ⟨bounds, range⟩ : ∃ bounds, p.range? = some bounds := by
          cases p <;> first | exact ⟨_, rfl⟩ | (cases numeric; done) | cases whole
        rw [range]
        refine .bind (.ok _) fun k _ => ?_
        split
        · exact .ok _
        · exact .error nofun

end Datum

/-! ## Instructions -/

theorem Surroundings.foreseen_recordOf (s : Surroundings) (contract : String) (id : Bytes) :
    Foreseen (s.recordOf contract (.bytes id)) := by
  unfold recordOf
  dsimp only
  split
  · exact .error nofun
  · exact .error nofun
  · exact .ok _

namespace Machine

open Code (linkInstruction literalValue)

section
variable {r : Leaves} {l : Layout} {result : Option Ty} {types : List Ty}

theorem foreseen_slotValue {lo : List Datum} {slots : List Ty} {type : Ty}
    (h : List.Forall₂ (fun type d => d = .null ∨ Datum.Conforms r type d) slots lo) {slot : Nat}
    (held : slots[slot]? = some type) : Foreseen (slotValue lo slot) := by
  have inside : slot < lo.length := h.length_eq ▸ (List.getElem?_eq_some_iff.mp held).1
  rw [slotValue, List.getElem?_eq_getElem inside]
  exact .ok _

/-- An instruction of the remainder finds no infinite dividend. -/
def IsFinite (i : Instruction Nat) (m : Machine) : Prop :=
  ∀ type, i = .arith .mod type → ∀ b a rest, m.stack = b :: a :: rest → a.isInfinite = false

section
variable {s : Surroundings} {m : Machine} {name word contract : String} {slot count target : Nat}
  {fields : List (String × Ty)} {type other : Ty}

namespace Conforms

/-! ### What any value will do for -/

theorem foreseen_loadThis (h : m.Conforms r l types) (held : l.this.field? name = some type) :
    Foreseen ((execute s (.loadThis name)).run m).1 := by
  obtain ⟨fields, receiver, all⟩ := h.receiver
  obtain ⟨d, found, -⟩ := all.lookup held
  rw [execute_loadThis, receiver, Datum.member, found]
  exact .ok _

theorem foreseen_storeThis (h : m.Conforms r l (type :: types)) :
    Foreseen ((execute s (.storeThis name)).run m).1 := by
  obtain ⟨d, m, rfl, -, below⟩ := h.exists_top
  obtain ⟨fields, receiver, -⟩ := below.receiver
  rw [execute_storeThis, receiver]
  exact .storing (.ok _) _ _ _

theorem foreseen_loadLocal (h : m.Conforms r l types) (held : l.slots[slot]? = some type) :
    Foreseen ((execute s (.loadLocal slot)).run m).1 := by
  rw [execute_loadLocal]
  exact (foreseen_slotValue h.locals held).answer _

theorem foreseen_storeLocal (h : m.Conforms r l (type :: types)) (held : l.slots[slot]? = some type) :
    Foreseen ((execute s (.storeLocal slot)).run m).1 := by
  obtain ⟨d, m, rfl, -, below⟩ := h.exists_top
  have inside := (List.getElem?_eq_some_iff.mp held).1
  rw [execute_storeLocal, if_pos (below.locals.length_eq ▸ inside)]
  exact .ok _

theorem foreseen_arrayNew (h : m.Conforms r l (List.replicate count type ++ types)) :
    Foreseen ((execute s (.arrayNew count)).run m).1 := by
  obtain ⟨st, lo, receiver, p, n, c⟩ := m
  obtain ⟨items, rest, held, rfl, -, -⟩ := exists_items h.stack
  dsimp only at held
  subst held
  rw [execute_arrayNew]
  exact .ok _

theorem foreseen_keyMatch (h : m.Conforms r l (other :: type :: types)) :
    Foreseen ((execute s .keyMatch).run m).1 := by
  obtain ⟨b, m, rfl, -, under⟩ := h.exists_top
  obtain ⟨a, m, rfl, -, -⟩ := under.exists_top
  rw [execute_keyMatch]
  exact .ok _

/-- What takes one value and looks at nothing in it. -/
theorem foreseen_of_any (h : m.Conforms r l (type :: types)) {i : Instruction Nat}
    (ends : ∀ (d : Datum) (m : Machine), Foreseen ((execute s i).run { m with stack := d :: m.stack }).1) :
    Foreseen ((execute s i).run m).1 := by
  obtain ⟨d, m, rfl, -, -⟩ := h.exists_top
  exact ends d m

theorem foreseen_not (h : m.Conforms r l (type :: types)) : Foreseen ((execute s .not).run m).1 :=
  h.foreseen_of_any fun _ _ => .ok _

theorem foreseen_truthy (h : m.Conforms r l (type :: types)) :
    Foreseen ((execute s .truthy).run m).1 := h.foreseen_of_any fun _ _ => .ok _

theorem foreseen_jumpIfFalse (h : m.Conforms r l (type :: types)) :
    Foreseen ((execute s (.jumpIfFalse target)).run m).1 :=
  h.foreseen_of_any fun _ _ => by rw [execute_jumpIfFalse]; exact .ok _

theorem foreseen_jumpIfTrue (h : m.Conforms r l (type :: types)) :
    Foreseen ((execute s (.jumpIfTrue target)).run m).1 :=
  h.foreseen_of_any fun _ _ => by rw [execute_jumpIfTrue]; exact .ok _

theorem foreseen_dup (h : m.Conforms r l (type :: types)) : Foreseen ((execute s .dup).run m).1 :=
  h.foreseen_of_any fun _ _ => .ok _

theorem foreseen_drop (h : m.Conforms r l (type :: types)) : Foreseen ((execute s .drop).run m).1 :=
  h.foreseen_of_any fun _ _ => .ok _

theorem foreseen_leaveValue (h : m.Conforms r l (type :: types)) :
    Foreseen ((execute s .leaveValue).run m).1 := h.foreseen_of_any fun _ _ => .ok _

theorem foreseen_abort (h : m.Conforms r l (type :: types)) : Foreseen ((execute s .abort).run m).1 :=
  h.foreseen_of_any fun _ _ => .error nofun

theorem foreseen_abortUnauthorized :
    Foreseen ((execute s .abortUnauthorized).run m).1 := by
  rw [execute_abortUnauthorized]
  exact .error nofun

/-! ### What takes values that are there -/

section
variable (keys : ∀ type, r.absent type → type = .publicKey)
include keys

theorem foreseen_getField (h : m.Conforms r l (.struct name fields :: types))
    (held : fields.lookup word = some type) : Foreseen ((execute s (.getField word)).run m).1 := by
  obtain ⟨whole, m, rfl, first, -⟩ := h.exists_top
  obtain ⟨members, rfl, all⟩ := first.exists_record keys
  obtain ⟨d, found, -⟩ := all.lookup held
  rw [execute_getField, Datum.member, found]
  exact .ok _

theorem foreseen_setField (h : m.Conforms r l (type :: .struct name fields :: types)) :
    Foreseen ((execute s (.setField word)).run m).1 := by
  obtain ⟨v, m, rfl, -, under⟩ := h.exists_top
  obtain ⟨whole, m, rfl, first, -⟩ := under.exists_top
  obtain ⟨members, rfl, -⟩ := first.exists_record keys
  rw [execute_setField]
  exact .storing (.ok _) _ _ _

theorem foreseen_deref (h : m.Conforms r l (.reference name :: types)) :
    Foreseen ((execute s (.deref contract)).run m).1 := by
  obtain ⟨reference, m, rfl, first, -⟩ := h.exists_top
  obtain ⟨id, rfl⟩ := first.exists_reference keys
  rw [execute_deref]
  exact (s.foreseen_recordOf _ id).answer _

theorem foreseen_arrayLength (h : m.Conforms r l (.array type :: types)) :
    Foreseen ((execute s .arrayLength).run m).1 := by
  obtain ⟨whole, m, rfl, first, -⟩ := h.exists_top
  obtain ⟨items, rfl, -⟩ := first.exists_list keys
  rw [execute_arrayLength]
  exact .ok _

theorem foreseen_textLength (h : m.Conforms r l (.string :: types)) :
    Foreseen ((execute s .textLength).run m).1 := by
  obtain ⟨whole, m, rfl, first, -⟩ := h.exists_top
  obtain ⟨text, rfl⟩ := first.exists_text keys
  rw [execute_textLength]
  exact .ok _

theorem foreseen_arrayGet (integer : other.isInteger = true)
    (h : m.Conforms r l (other :: .array type :: types)) : Foreseen ((execute s .arrayGet).run m).1 := by
  obtain ⟨index, m, rfl, place, under⟩ := h.exists_top
  obtain ⟨whole, m, rfl, first, -⟩ := under.exists_top
  obtain ⟨i, rfl⟩ := place.exists_integer keys integer
  obtain ⟨items, rfl, -⟩ := first.exists_list keys
  rw [execute_arrayGet]
  exact (Datum.foreseen_element items i).answer _

theorem foreseen_arraySet (integer : other.isInteger = true)
    (h : m.Conforms r l (type :: other :: .array type :: types)) :
    Foreseen ((execute s .arraySet).run m).1 := by
  obtain ⟨v, m, rfl, -, above⟩ := h.exists_top
  obtain ⟨index, m, rfl, place, under⟩ := above.exists_top
  obtain ⟨whole, m, rfl, first, -⟩ := under.exists_top
  obtain ⟨i, rfl⟩ := place.exists_integer keys integer
  obtain ⟨items, rfl, -⟩ := first.exists_list keys
  rw [execute_arraySet]
  exact .storing ((Datum.foreseen_withElement items i _).answer _) _ _ _

theorem foreseen_arrayPush (h : m.Conforms r l (type :: .array type :: types)) :
    Foreseen ((execute s .arrayPush).run m).1 := by
  obtain ⟨v, m, rfl, -, under⟩ := h.exists_top
  obtain ⟨whole, m, rfl, first, -⟩ := under.exists_top
  obtain ⟨items, rfl, -⟩ := first.exists_list keys
  rw [execute_arrayPush]
  exact .storing (.ok _) _ _ _

theorem foreseen_arrayIndexOf (h : m.Conforms r l (other :: .array type :: types)) :
    Foreseen ((execute s .arrayIndexOf).run m).1 := by
  obtain ⟨wanted, m, rfl, -, under⟩ := h.exists_top
  obtain ⟨whole, m, rfl, first, -⟩ := under.exists_top
  obtain ⟨items, rfl, -⟩ := first.exists_list keys
  rw [execute_arrayIndexOf]
  refine .answer (.lift ?_) _
  rw [Datum.indexOf, Datum.parts, ok_bind]
  split <;> exact ⟨_, rfl⟩

theorem foreseen_concat (h : m.Conforms r l (.string :: .string :: types)) :
    Foreseen ((execute s .concat).run m).1 := by
  obtain ⟨right, m, rfl, second, under⟩ := h.exists_top
  obtain ⟨left, m, rfl, first, -⟩ := under.exists_top
  obtain ⟨b, rfl⟩ := second.exists_text keys
  obtain ⟨a, rfl⟩ := first.exists_text keys
  rw [execute_concat]
  exact .ok _

theorem foreseen_arrayIncludes (h : m.Conforms r l (other :: .array type :: types)) :
    Foreseen ((execute s .arrayIncludes).run m).1 := by
  obtain ⟨wanted, m, rfl, -, under⟩ := h.exists_top
  obtain ⟨whole, m, rfl, first, -⟩ := under.exists_top
  obtain ⟨items, rfl, -⟩ := first.exists_list keys
  rw [execute_arrayIncludes, Datum.includes]
  exact .ok _

theorem foreseen_compare {c : Comparison} (suits : c.Suits type)
    (h : m.Conforms r l (type :: type :: types)) : Foreseen ((execute s (.compare c)).run m).1 := by
  obtain ⟨b, m, rfl, right, under⟩ := h.exists_top
  obtain ⟨a, m, rfl, left, -⟩ := under.exists_top
  obtain ⟨x, hx⟩ := Datum.exists_holds keys suits left right
  rw [execute_compare, hx]
  exact .ok _

theorem foreseen_arith {op : Arith} {p : Primitive} (binary : op.isBinary = true)
    (numeric : p.isNumeric = true) (h : m.Conforms r l (.primitive p :: .primitive p :: types))
    (finite : IsFinite (.arith op p) m) : Foreseen ((execute s (.arith op p)).run m).1 := by
  have other : op ≠ .neg := by
    rintro rfl
    cases binary
  obtain ⟨right, m, rfl, second, under⟩ := h.exists_top
  obtain ⟨left, m, rfl, first, -⟩ := under.exists_top
  obtain ⟨a, ha, rfl⟩ := first.exists_number keys numeric
  obtain ⟨b, hb, rfl⟩ := second.exists_number keys numeric
  obtain ⟨x, hx⟩ := Datum.exists_raw (.computed m.computed) binary ha hb fun mod =>
    finite p (mod ▸ rfl) _ _ _ rfl
  obtain ⟨k, suits, rfl⟩ := Datum.raw_number binary (.inr ⟨a, ha, rfl⟩) (.inr ⟨b, hb, rfl⟩) hx
  rw [execute_arith _ _ _ _ _ _ _ other]
  exact (Datum.foreseen_arith numeric suits hx).answer _

theorem foreseen_negate {p : Primitive} (numeric : p.isNumeric = true)
    (h : m.Conforms r l (.primitive p :: types)) : Foreseen ((execute s (.arith .neg p)).run m).1 := by
  obtain ⟨d, m, rfl, first, -⟩ := h.exists_top
  obtain ⟨a, ha, rfl⟩ := first.exists_number keys numeric
  rw [execute_negate]
  exact (Datum.foreseen_arith numeric (ha.neg _) (Datum.raw_negates ha)).answer _

end

end Conforms

end

/-! ### Steps -/

/-- An instruction fails only as the language foresees where data conform to types, keys alone being
absent. -/
theorem execute_foreseen {abi : Abi} {header : Header} {labels : List (String × Nat)} {s : Surroundings}
    {m : Machine} {types' : List Ty} {i : Instruction String} {j : Instruction Nat}
    (keys : ∀ type, r.absent type → type = .publicKey)
    (linked : linkInstruction abi header labels i = .ok j) (typed : i.Typed l result types types')
    (h : m.Conforms r l types) (finite : IsFinite j m) : Foreseen ((execute s j).run m).1 := by
  cases typed with
  | literal hd =>
    rw [linkInstruction, literalValue_of_isLiteral hd] at linked
    cases linked
    exact .ok _
  | key point =>
    simp only [linkInstruction, literalValue, Key.ofHex_toHex point] at linked
    cases linked
    exact .ok _
  | loadThis held =>
    obtain rfl := eq_of_checked linked
    exact h.foreseen_loadThis held
  | storeThis held =>
    obtain rfl := eq_of_checked linked
    exact h.foreseen_storeThis
  | loadLocal held =>
    obtain rfl := eq_of_checked linked
    exact h.foreseen_loadLocal held
  | storeLocal held =>
    obtain rfl := eq_of_checked linked
    exact h.foreseen_storeLocal held
  | loadContext =>
    rw [linkInstruction] at linked
    split at linked <;> cases linked
    exact .ok _
  | deref known =>
    rw [linkInstruction] at linked
    split at linked <;> cases linked
    exact h.foreseen_deref keys
  | jump =>
    obtain ⟨target, -, linked⟩ := bind_eq_ok.mp linked
    obtain rfl := pure_eq_ok.mp linked
    exact .ok _
  | jumpIfFalse =>
    obtain ⟨target, -, linked⟩ := bind_eq_ok.mp linked
    obtain rfl := pure_eq_ok.mp linked
    exact h.foreseen_jumpIfFalse
  | jumpIfTrue =>
    obtain ⟨target, -, linked⟩ := bind_eq_ok.mp linked
    obtain rfl := pure_eq_ok.mp linked
    exact h.foreseen_jumpIfTrue
  | getField held =>
    cases linked
    exact h.foreseen_getField keys held
  | setField =>
    cases linked
    exact h.foreseen_setField keys
  | arrayNew =>
    cases linked
    exact h.foreseen_arrayNew
  | arrayLength =>
    cases linked
    exact h.foreseen_arrayLength keys
  | textLength =>
    cases linked
    exact h.foreseen_textLength keys
  | arrayGet integer =>
    cases linked
    exact h.foreseen_arrayGet keys integer
  | arraySet integer =>
    cases linked
    exact h.foreseen_arraySet keys integer
  | arrayPush =>
    cases linked
    exact h.foreseen_arrayPush keys
  | arrayIndexOf =>
    cases linked
    exact h.foreseen_arrayIndexOf keys
  | arrayIncludes =>
    cases linked
    exact h.foreseen_arrayIncludes keys
  | concat =>
    cases linked
    exact h.foreseen_concat keys
  | compare suits =>
    cases linked
    exact h.foreseen_compare keys suits
  | keyMatch =>
    cases linked
    exact h.foreseen_keyMatch
  | not =>
    cases linked
    exact h.foreseen_not
  | truthy =>
    cases linked
    exact h.foreseen_truthy
  | dup =>
    cases linked
    exact h.foreseen_dup
  | drop =>
    cases linked
    exact h.foreseen_drop
  | abort =>
    cases linked
    exact h.foreseen_abort
  | abortUnauthorized =>
    cases linked
    exact Conforms.foreseen_abortUnauthorized
  | leave =>
    cases linked
    exact .ok _
  | leaveValue =>
    cases linked
    exact h.foreseen_leaveValue
  | arith binary numeric =>
    cases linked
    exact h.foreseen_arith keys binary numeric finite
  | negate numeric =>
    cases linked
    exact h.foreseen_negate keys numeric

/-- A step fails only as the language foresees where data conform to the types of the place. -/
theorem ConformsAt.foreseen {abi : Abi} {header : Header} {labels : List (String × Nat)}
    {code : LinkedCode} {levels : Nat → Option (List Ty)} {s : Surroundings}
    (typed : Code.LevelsOf (Instruction.Typed l result) abi header labels code levels)
    (keys : ∀ type, r.absent type → type = .publicKey) {m : Machine} (h : m.ConformsAt r l levels)
    (finite : ∀ j, code[m.place]? = some j → IsFinite j m)
    {x : Except Failure (Option Departure) × Machine} (hs : step code s m = some x) : Foreseen x.1 := by
  obtain ⟨types, level, conforms⟩ := h
  obtain ⟨i, j, made, linked, here, makes, -⟩ := typed _ _ level
  obtain ⟨j', here', rfl⟩ := instruction_of_step hs
  obtain rfl : j = j' := Option.some.inj (here.symm.trans here')
  exact execute_foreseen keys linked makes ⟨conforms.stack, conforms.locals, conforms.receiver⟩
    (finite j here)

end

end Machine

end Covenant
