import Covenant.Proofs.Machine.Effect
import Covenant.Proofs.Run.Inputs
import Covenant.Proofs.Schema
import Covenant.Proofs.Value.Encoding
/-!
Data of a type, as the machine holds them.

* `Datum.Conforms`: a datum has the shape of a type at every depth, its integers are in range and its
  records have the declared fields, in order; what may be absent is left open;
* `Value.IsOf.conforms`: the datum of a value of a type conforms to it, if the fields of all structs in
  the type have different names;
* `Datum.Conforms.member`, `.withMember`, `.element`, `.withElement`, `.appended`, `.arith` and others:
  what is made of data that conform does so too.
-/

namespace Covenant

/-- What is left open about data of a type: where null may stand for a value, and which keys there are. -/
structure Leaves where
  absent : Ty → Prop
  key : Key → Prop

namespace Datum

mutual
inductive Conforms (r : Leaves) : Ty → Datum → Prop
  | absent {type : Ty} (h : r.absent type) : Conforms r type .null
  | scalar {p : Primitive} {d : Datum} (h : IsScalar p d) : Conforms r (.primitive p) d
  | publicKey {k : Key} (h : r.key k) : Conforms r .publicKey (.key k)
  | reference (contract id : String) : Conforms r (.reference contract) (.bytes (Text.utf8 id))
  | array {element : Ty} {items : List Datum} (each : ∀ d ∈ items, Conforms r element d) :
      Conforms r (.array element) (.list items)
  | struct {name : String} {types : List (String × Ty)} {fields : Fields}
      (all : FieldsConform r types fields) : Conforms r (.struct name types) (.record fields)

inductive FieldsConform (r : Leaves) : List (String × Ty) → Fields → Prop
  | nil : FieldsConform r [] []
  | cons {name : String} {type : Ty} {d : Datum} {types : List (String × Ty)} {fields : Fields}
      (first : Conforms r type d) (rest : FieldsConform r types fields) :
      FieldsConform r ((name, type) :: types) ((name, d) :: fields)
end

/-! ## Fields -/

namespace FieldsConform

variable {r : Leaves} {name : String} {type : Ty}

theorem names {types : List (String × Ty)} {fields : Fields} :
    FieldsConform r types fields → fields.map Prod.fst = types.map Prod.fst
  | .nil => rfl
  | .cons _ rest => congrArg (_ :: ·) rest.names

theorem lookup {types : List (String × Ty)} {fields : Fields} (h : FieldsConform r types fields)
    (held : types.lookup name = some type) : ∃ d, fields.lookup name = some d ∧ Conforms r type d := by
  induction types generalizing fields with
  | nil => cases held
  | cons p rest ih =>
    obtain ⟨other, t⟩ := p
    cases h with
    | @cons _ _ d _ fields first others =>
      rw [List.lookup_cons] at held ⊢
      cases same : name == other with
      | true =>
        simp only [same, Option.some.injEq] at held
        exact ⟨d, rfl, held ▸ first⟩
      | false =>
        simp only [same] at held
        exact ih others held

/-- A field may be replaced by another datum of its type. -/
theorem set {types : List (String × Ty)} {fields : Fields} (h : FieldsConform r types fields)
    (held : types.lookup name = some type) {value : Datum} (hv : Conforms r type value) :
    FieldsConform r types (setField name value fields) := by
  induction types generalizing fields with
  | nil => cases held
  | cons p rest ih =>
    obtain ⟨other, t⟩ := p
    cases h with
    | @cons _ _ d _ fields first others =>
      rw [List.lookup_cons] at held
      rw [setField]
      by_cases same : other = name
      · subst same
        simp only [beq_self_eq_true, Option.some.injEq] at held
        rw [if_pos rfl]
        exact .cons (held ▸ hv) others
      · have ne : (name == other) = false := beq_false_of_ne (Ne.symm same)
        simp only [ne] at held
        rw [if_neg same]
        exact .cons first (ih others held)

end FieldsConform

/-! ## Parts -/

namespace Conforms

variable {r : Leaves} {d e v index : Datum} {type part : Ty} {name word : String}
  {types : List (String × Ty)}

theorem boolean (b : Bool) : Conforms r .boolean (.boolean b) := .scalar (.boolean b)

theorem string (s : String) : Conforms r .string (.text s) := .scalar (.string s)

theorem member (h : Conforms r (.struct name types) d) (found : types.lookup word = some type)
    (held : d.member word = .ok e) : Conforms r type e := by
  cases h with
  | absent => cases held
  | @struct _ _ fields all =>
    obtain ⟨e', he, conforms⟩ := all.lookup found
    rw [Datum.member, he] at held
    cases held
    exact conforms

theorem withMember (h : Conforms r (.struct name types) d) (found : types.lookup word = some type)
    (hv : Conforms r type v) (made : d.withMember word v = .ok e) :
    Conforms r (.struct name types) e := by
  cases h with
  | absent => cases made
  | struct all =>
    cases made
    exact .struct (all.set found hv)

theorem items (h : Conforms r (.array part) d) {parts : List Datum} (hp : d.parts = .ok parts) :
    ∀ e ∈ parts, Conforms r part e := by
  cases h with
  | absent => cases hp
  | array each =>
    cases hp
    exact each

theorem element (h : Conforms r (.array part) d) (held : d.element index = .ok e) :
    Conforms r part e := by
  unfold Datum.element at held
  obtain ⟨-, -, held⟩ := bind_eq_ok.mp held
  split at held
  · cases held
  · obtain ⟨i, -, held⟩ := bind_eq_ok.mp held
    obtain ⟨parts, hp, held⟩ := bind_eq_ok.mp held
    split at held
    next part found =>
      obtain rfl := pure_eq_ok.mp held
      exact h.items (Failure.lift_eq_ok.mp hp) _ (List.mem_of_getElem? found)
    next => cases held

theorem withElement (h : Conforms r (.array part) d) (hv : Conforms r part v)
    (made : d.withElement index v = .ok e) : Conforms r (.array part) e := by
  unfold Datum.withElement at made
  obtain ⟨parts, hp, made⟩ := bind_eq_ok.mp made
  obtain ⟨-, -, made⟩ := bind_eq_ok.mp made
  obtain ⟨i, -, made⟩ := bind_eq_ok.mp made
  obtain rfl := pure_eq_ok.mp made
  refine .array fun e he => ?_
  rcases List.mem_or_eq_of_mem_set he with old | rfl
  · exact h.items (Failure.lift_eq_ok.mp hp) e old
  · exact hv

theorem appended (h : Conforms r (.array part) d) (hv : Conforms r part v)
    (made : d.appended v = .ok e) : Conforms r (.array part) e := by
  obtain ⟨parts, hp, made⟩ := bind_eq_ok.mp made
  obtain rfl := pure_eq_ok.mp made
  refine .array fun e he => ?_
  rcases List.mem_append.mp he with old | new
  · exact h.items hp e old
  · rw [List.mem_singleton.mp new]
    exact hv

end Conforms

end Datum

/-! ## Values -/

namespace Value

variable {r : Leaves}

theorem itemData_eq_map (items : List Value) : itemData items = items.map toDatum := by
  induction items with
  | nil => rfl
  | cons v rest ih => rw [itemData, ih, List.map_cons]

theorem FieldsOf.data_names {types : List (String × Ty)} {fields : List (String × Value)}
    (h : FieldsOf types fields) : (fieldData fields).map Prod.fst = types.map Prod.fst := by
  rw [fieldData_eq_map, List.map_map, ← h.names]
  rfl

mutual
/-- The datum of a value conforms to its type. -/
theorem IsOf.conforms (keys : ∀ k : Key, k.IsValid → r.key k) : ∀ {type : Ty} {v : Value},
    v.IsOf type → type.Distinct → v.toDatum.Conforms r type
  | _, _, .scalar h, _ => .scalar h
  | _, _, .publicKey h, _ => .publicKey (keys _ h)
  | _, _, .reference contract id, _ => .reference contract id
  | _, _, @IsOf.array element items each, .array distinct => by
    rw [toDatum, itemData_eq_map]
    refine .array fun d hd => ?_
    obtain ⟨v, hv, rfl⟩ := List.mem_map.mp hd
    exact (each v hv).conforms keys distinct
  | _, _, @IsOf.struct name types fields all, .struct nodup parts => by
    rw [toDatum, ofMembers_of_nodup (all.data_names ▸ nodup)]
    exact .struct (all.conform keys parts)

theorem FieldsOf.conform (keys : ∀ k : Key, k.IsValid → r.key k) :
    ∀ {types : List (String × Ty)} {fields : List (String × Value)}, FieldsOf types fields →
      (∀ f ∈ types, f.2.Distinct) → Datum.FieldsConform r types (fieldData fields)
  | _, _, .nil, _ => .nil
  | _, _, .cons first rest, distinct => by
    rw [List.forall_mem_cons] at distinct
    exact .cons (first.conforms keys distinct.1) (rest.conform keys distinct.2)
end

end Value

/-- Leaves all of which are there, but for keys: none stands for the null key. -/
def Leaves.strict : Leaves := ⟨(· = .publicKey), Key.IsValid⟩

namespace Value

theorem exists_ofItems {P : Value → Prop} {element : Ty} {items : List Datum}
    (each : ∀ d ∈ items, ∃ v, ofDatum element d = .ok v ∧ P v) :
    ∃ values, ofItems (ofDatum element) items = .ok values ∧ ∀ v ∈ values, P v := by
  induction items with
  | nil => exact ⟨[], rfl, by simp⟩
  | cons d rest ih =>
    rw [List.forall_mem_cons] at each
    obtain ⟨v, hv, typed⟩ := each.1
    obtain ⟨values, hvs, others⟩ := ih each.2
    exact ⟨v :: values, by rw [ofItems, hv, ok_bind, hvs]; rfl, List.forall_mem_cons.mpr ⟨typed, others⟩⟩

mutual
/-- A datum of a type, all of whose leaves are there but for keys, is that of a value with a byte form,
and of one of the type if its keys are those that data can give. -/
theorem exists_ofDatum {r : Leaves} (keys : ∀ type, r.absent type → type = .publicKey) :
    ∀ {type : Ty} {d : Datum}, d.Conforms r type → type.Distinct →
    ∃ v, ofDatum type d = .ok v ∧ v.Writable ∧ ((∀ k, r.key k → k.IsValid) → v.IsOf type)
  | type, _, .absent h, _ => by
    obtain rfl := keys type h
    exact ⟨_, rfl, .publicKey _, fun _ => .publicKey (.inl rfl)⟩
  | _, _, .scalar h, _ => ⟨_, rfl, .scalar h, fun _ => .scalar h⟩
  | _, _, .publicKey h, _ => ⟨_, rfl, .publicKey _, fun valid => .publicKey (valid _ h)⟩
  | _, _, .reference contract id, _ => ⟨_, rfl, .reference _, fun _ => .reference contract id⟩
  | _, _, @Datum.Conforms.array _ element items each, .array distinct => by
    obtain ⟨values, hvs, all⟩ := exists_ofItems fun d hd => exists_ofDatum keys (each d hd) distinct
    refine ⟨.array values, ?_, .array fun v hv => (all v hv).1,
      fun valid => .array fun v hv => (all v hv).2 valid⟩
    rw [ofDatum, Datum.parts, ok_bind, hvs]
    rfl
  | _, _, @Datum.Conforms.struct _ name types fields all, .struct nodup parts => by
    have distinct : (fields.map Prod.fst).Nodup := all.names ▸ nodup
    obtain ⟨values, hvs, -, writable, typed⟩ :=
      exists_ofFields keys all parts fields fun f hf => lookup_of_mem distinct hf
    exact ⟨.struct values, by rw [ofDatum, hvs]; rfl, .struct writable, fun valid => .struct (typed valid)⟩

theorem exists_ofFields {r : Leaves} (keys : ∀ type, r.absent type → type = .publicKey) :
    ∀ {types : List (String × Ty)} {fields : Fields},
    Datum.FieldsConform r types fields → (∀ f ∈ types, f.2.Distinct) →
      ∀ all : Fields, (∀ f ∈ fields, all.lookup f.1 = some f.2) →
        ∃ values, ofFields types (.record all) = .ok values ∧
          values.map Prod.fst = types.map Prod.fst ∧ (∀ f ∈ values, f.2.Writable) ∧
          ((∀ k, r.key k → k.IsValid) → FieldsOf types values)
  | _, _, .nil, _, all, _ => ⟨[], rfl, rfl, List.forall_mem_nil _, fun _ => .nil⟩
  | _, _, @Datum.FieldsConform.cons _ name type d types fields first rest, distinct, all, held => by
    rw [List.forall_mem_cons] at distinct held
    obtain ⟨v, hv, writable, typed⟩ := exists_ofDatum keys first distinct.1
    obtain ⟨values, hvs, names, each, others⟩ := exists_ofFields keys rest distinct.2 all held.2
    refine ⟨(name, v) :: values, ?_, congrArg _ names, List.forall_mem_cons.mpr ⟨writable, each⟩,
      fun valid => .cons (typed valid) (others valid)⟩
    rw [ofFields, memberOf, held.1]
    dsimp only
    rw [ok_bind, hv, ok_bind, hvs]
    rfl
end

end Value

namespace Datum

/-! ## Sizes and places -/

/-- A list or a text of fewer than `2 ^ 31` parts, or something else. -/
def IsShort : Datum → Prop
  | .list items => items.length < 0x80000000
  | .text s => s.length < 0x80000000
  | _ => True

instance (d : Datum) : Decidable d.IsShort :=
  match d with
  | .list items => inferInstanceAs (Decidable (items.length < _))
  | .text s => inferInstanceAs (Decidable (s.length < _))
  | .null | .boolean _ | .integer _ | .float _ | .bytes _ | .key _ | .record _ =>
    inferInstanceAs (Decidable True)

namespace Conforms

variable {r : Leaves} {d e target : Datum} {part : Ty} {n : Nat}

theorem u32_of_lt (h : n < 0x80000000) : Conforms r .u32 (.integer n) :=
  .scalar (.integer rfl (by omega) (by omega))

theorem arraySize (h : Conforms r (.array part) d) (short : d.IsShort) (size : d.size = .ok n) :
    Conforms r .u32 (.integer n) := by
  cases h with
  | absent => cases size
  | array =>
    cases size
    exact u32_of_lt short

theorem textSize (h : Conforms r .string d) (short : d.IsShort) (size : d.size = .ok n) :
    Conforms r .u32 (.integer n) := by
  cases h with
  | absent => cases size
  | scalar h =>
    cases h with
    | string s =>
      cases size
      exact u32_of_lt short
    | integer range => cases range

theorem indexOf (h : Conforms r (.array part) d) (short : d.IsShort)
    (found : d.indexOf target = .ok e) : Conforms r .i32 e := by
  cases h with
  | absent => cases found
  | @array _ items =>
    have length : items.length < 0x80000000 := short
    unfold Datum.indexOf at found
    rw [show (Datum.list items).parts = .ok items from rfl, ok_bind] at found
    split at found
    next i hi =>
      obtain rfl := pure_eq_ok.mp found
      have inside : i < items.length := (List.findIdx?_eq_some_iff_findIdx_eq.mp hi).1
      exact .scalar (.integer rfl (by omega) (by omega))
    next =>
      obtain rfl := pure_eq_ok.mp found
      exact .scalar (.integer rfl (by omega) (by omega))

theorem join {a b : Datum} {origin : Origin} (ha : Conforms r .string a) (hb : Conforms r .string b)
    (made : a.plus origin b = .ok e) : Conforms r .string e := by
  have text : ∀ {d : Datum}, Conforms r .string d → d = .null ∨ ∃ s, d = .text s := by
    intro d h
    cases h with
    | absent => exact .inl rfl
    | scalar h =>
      cases h with
      | string s => exact .inr ⟨s, rfl⟩
      | integer range => cases range
  obtain rfl | ⟨s, rfl⟩ := text ha
  · cases made
  · obtain rfl | ⟨t, rfl⟩ := text hb
    · cases made
    · cases made
      exact string _

end Conforms

/-! ## Arithmetic -/

/-- A number of the kind that a type of numbers has: an integer, or a double. -/
inductive Number.Suits : Bool → Number → Prop
  | whole (i : Int) : Number.Suits false (.whole i)
  | double (x : Double) : Number.Suits true (.double x)

namespace Number.Suits

variable {isFloat : Bool} {m n k : Number}

theorem combine (hm : m.Suits isFloat) (hn : n.Suits isFloat) {f : Int → Int → Int}
    {g : Double → Double → Double} (made : Number.combine f g m n = .ok k) : k.Suits isFloat := by
  cases hm with
  | whole i =>
    cases hn
    cases made
    exact .whole _
  | double x =>
    cases hn
    cases made
    exact .double _

theorem neg (h : m.Suits isFloat) (origin : Origin) : (m.neg origin).Suits isFloat := by
  cases h with
  | whole i => exact .whole _
  | double x => exact .double _

theorem abs (h : m.Suits isFloat) : m.abs.Suits isFloat := by
  cases h with
  | whole i => exact .whole _
  | double x => exact .double _

theorem truncatedQuotient (hm : m.Suits isFloat) (hn : n.Suits isFloat) {origin : Origin}
    (made : Number.truncatedQuotient origin m n = .ok k) : k.Suits isFloat := by
  obtain ⟨q, hq, made⟩ := bind_eq_ok.mp made
  cases made
  have quotient := hm.abs.combine hn.abs hq
  split
  · exact quotient
  · exact quotient.neg origin

end Number.Suits

/-- Data that numbers of one kind are, and null. -/
def IsOperand (isFloat : Bool) (d : Datum) : Prop :=
  d = .null ∨ ∃ n : Number, n.Suits isFloat ∧ d = n.toDatum

theorem Conforms.isOperand {r : Leaves} {p : Primitive} (numeric : p.isNumeric = true) {d : Datum}
    (h : Conforms r (.primitive p) d) : IsOperand p.isFloat d := by
  cases h with
  | absent => exact .inl rfl
  | scalar h =>
    right
    cases h with
    | boolean | string | bytes => cases numeric
    | single | double => exact ⟨_, .double _, rfl⟩
    | integer range => cases p <;> first | exact ⟨_, .whole _, rfl⟩ | cases range

section
variable {isFloat : Bool} {origin : Origin} {a b e : Datum}

/-- What an operation makes of numbers of one kind is a number of this kind. -/
theorem raw_number {op : Arith} (binary : op.isBinary = true) (ha : IsOperand isFloat a)
    (hb : IsOperand isFloat b) (made : raw origin op isFloat a b = .ok e) :
    ∃ n : Number, n.Suits isFloat ∧ e = n.toDatum := by
  obtain rfl | ⟨m, hm, rfl⟩ := ha
  · cases op <;> cases b <;> cases made
  obtain rfl | ⟨n, hn, rfl⟩ := hb
  · cases hm <;> cases op <;> first | (cases made; done) | cases binary
  have left : m.toDatum.asNumber = .ok m := by cases hm <;> rfl
  have right : n.toDatum.asNumber = .ok n := by cases hn <;> rfl
  cases op with
  | neg | other => cases binary
  | add =>
    have sum : plus origin m.toDatum n.toDatum =
        (do return (← Number.combine (· + ·) (Double.add origin) m n).toDatum) := by
      cases hm <;> cases hn <;> rfl
    rw [raw, sum] at made
    obtain ⟨k, hk, made⟩ := bind_eq_ok.mp made
    cases made
    exact ⟨k, hm.combine hn hk, rfl⟩
  | sub =>
    rw [raw, minus, left, right, ok_bind, ok_bind] at made
    obtain ⟨k, hk, made⟩ := bind_eq_ok.mp made
    cases made
    exact ⟨k, hm.combine hn hk, rfl⟩
  | mul =>
    have product : times origin m.toDatum n.toDatum =
        (do return (← Number.combine (· * ·) (Double.mul origin) m n).toDatum) := by
      cases hm <;> cases hn <;> rfl
    rw [raw, product] at made
    obtain ⟨k, hk, made⟩ := bind_eq_ok.mp made
    cases made
    exact ⟨k, hm.combine hn hk, rfl⟩
  | div =>
    rw [raw, left, right, ok_bind, ok_bind] at made
    cases hm with
    | whole i =>
      obtain ⟨k, hk, made⟩ := bind_eq_ok.mp made
      cases made
      exact ⟨k, (Number.Suits.whole i).truncatedQuotient hn hk, rfl⟩
    | double x =>
      cases hn
      cases made
      exact ⟨_, .double _, rfl⟩
  | mod =>
    rw [raw, left, right, ok_bind, ok_bind] at made
    cases hm with
    | whole i =>
      obtain ⟨q, hq, made⟩ := bind_eq_ok.mp made
      obtain ⟨product, hp, made⟩ := bind_eq_ok.mp made
      obtain ⟨k, hk, made⟩ := bind_eq_ok.mp made
      cases made
      have quotient := (Number.Suits.whole i).truncatedQuotient hn hq
      exact ⟨k, (Number.Suits.whole i).combine (hn.combine quotient hp) hk, rfl⟩
    | double x =>
      cases hn with
      | double y =>
        rw [if_pos rfl] at made
        simp only [Number.toDouble, ok_bind] at made
        split at made
        · cases made
          exact ⟨.double _, .double _, rfl⟩
        · cases made

theorem raw_neg (ha : IsOperand isFloat a) (made : raw origin .neg isFloat a b = .ok e) :
    ∃ n : Number, n.Suits isFloat ∧ e = n.toDatum := by
  obtain rfl | ⟨m, hm, rfl⟩ := ha
  · cases made
  have left : m.toDatum.asNumber = .ok m := by cases hm <;> rfl
  rw [raw, negated, left, ok_bind] at made
  cases made
  exact ⟨_, hm.neg origin, rfl⟩

theorem within_whole {low high i : Int} : within low high (.whole i) = true ↔ low ≤ i ∧ i ≤ high := by
  simp [within, Number.compare, compare_gt_iff_gt]

/-- Arithmetic of a type rounds and checks what the operation makes. -/
theorem conforms_of_arith {r : Leaves} {p : Primitive} (numeric : p.isNumeric = true) {op : Arith}
    (number : ∀ x, raw origin op p.isFloat a b = .ok x → ∃ n : Number, n.Suits p.isFloat ∧
      x = n.toDatum) (made : arith origin op p a b = .ok e) : Conforms r (.primitive p) e := by
  unfold arith at made
  split at made
  · cases made
  obtain ⟨x, hx, checked⟩ := bind_eq_ok.mp made
  obtain ⟨n, suits, rfl⟩ := number x (Failure.lift_eq_ok.mp hx)
  split at checked
  next double =>
    obtain rfl : p = .f64 := by simpa using double
    obtain rfl := pure_eq_ok.mp checked
    cases suits
    exact .scalar (.double _)
  next notDouble =>
    split at checked
    next single =>
      obtain rfl : p = .f32 := by simpa using single
      cases suits with
      | double y =>
        cases checked
        exact .scalar (.single (Double.isSingle_roundSingle _ _))
    next notSingle =>
      have whole : p.isFloat = false := by
        cases p <;> first | rfl | exact absurd rfl notDouble | exact absurd rfl notSingle
      rw [whole] at suits
      cases suits with
      | whole i =>
        split at checked
        · cases checked
        next low high range =>
          obtain ⟨m, hm, checked⟩ := bind_eq_ok.mp checked
          cases hm
          split at checked
          next inside =>
            obtain rfl := pure_eq_ok.mp checked
            obtain ⟨least, greatest⟩ := within_whole.mp inside
            exact .scalar (.integer range least greatest)
          next => cases checked

end

end Datum

end Covenant
