import Covenant.Proofs.Value.Parts
import Covenant.Proofs.Value.RoundTrip
/-!
Values survive being written as JSON data, as far as they hold numbers.

* `Value.eq_of_unmarked`: a value without results that are no numbers is determined up to marks;
* `Value.nanFree_of_ofJson`: what is read from data without such results has none;
* `values_survive_json`: values are read again as they were written, and what is read is a value;
* `not_every_value_survives_json`: a result that is no number does not survive, nor does a struct of a
  type that names a field twice.
-/

namespace Covenant

theorem Double.eq_of_unmarked {x y : Double} (number : x.isNan = false)
    (same : y.unmarked = x.unmarked) : y = x := by
  cases x with
  | nan => cases number
  | number negative r =>
    cases y with
    | nan => cases same
    | number => exact same

theorem Datum.eq_of_unmarked {d d' : Datum} (number : ∀ x, d = .float x → x.isNan = false)
    (same : d'.unmarked = d.unmarked) : d' = d := by
  cases d with
  | float x =>
    cases d' with
    | float y => rw [Double.eq_of_unmarked (number x rfl) (Datum.float.inj same)]
    | _ => cases same
  | _ => cases d' <;> first | exact same | cases same

namespace Value

/-- Items that are each determined by what they are without marks are so as a list. -/
theorem eq_of_unmarkedItems {items : List Value}
    (each : ∀ v ∈ items, ∀ v', v'.unmarked = v.unmarked → v' = v) {items' : List Value}
    (same : unmarkedItems items' = unmarkedItems items) : items' = items := by
  induction items generalizing items' with
  | nil =>
    cases items' with
    | nil => rfl
    | cons => cases same
  | cons v rest ih =>
    rw [List.forall_mem_cons] at each
    cases items' with
    | nil => cases same
    | cons v' rest' =>
      rw [unmarkedItems, unmarkedItems, List.cons.injEq] at same
      rw [each.1 v' same.1, ih each.2 same.2]

mutual
/-- A value of a type without results that are no numbers is determined by what it is without marks. -/
theorem IsOf.eq_of_unmarked : ∀ {type : Ty} {v : Value}, v.IsOf type → type.Distinct →
    v.toDatum.NanFree → ∀ v', v'.unmarked = v.unmarked → v' = v
  | _, _, .scalar h, _, free, v', same => by
    have number := (Datum.each_atom (IsScalar.isAtom h)).mp free
    cases v' with
    | scalar q d =>
      rw [unmarked, unmarked, scalar.injEq] at same
      rw [same.1, Datum.eq_of_unmarked number same.2]
    | _ => cases same
  | _, _, .publicKey _, _, _, v', same => by
    cases v' with
    | publicKey => exact same
    | _ => cases same
  | _, _, .reference .., _, _, v', same => by
    cases v' with
    | reference => exact same
    | _ => cases same
  | _, _, @IsOf.array element items each, .array distinct, free, v', same => by
    have own : ∀ d ∈ itemData items, d.NanFree := Datum.each_list.mp free
    rw [itemData_eq_map, List.forall_mem_map] at own
    cases v' with
    | array items' =>
      rw [unmarked, unmarked, array.injEq] at same
      rw [eq_of_unmarkedItems (fun v hv => (each v hv).eq_of_unmarked distinct (own v hv)) same]
    | _ => cases same
  | _, _, @IsOf.struct name types fields all, .struct nodup parts, free, v', same => by
    rw [toDatum, ofMembers_of_nodup (all.data_names ▸ nodup)] at free
    have own : ∀ m ∈ fieldData fields, m.2.NanFree := Datum.each_record.mp free
    rw [fieldData_eq_map, List.forall_mem_map] at own
    cases v' with
    | struct fields' =>
      rw [unmarked, unmarked, struct.injEq] at same
      rw [all.eq_of_unmarked parts own fields' same]
    | _ => cases same

theorem FieldsOf.eq_of_unmarked : ∀ {types : List (String × Ty)} {fields : List (String × Value)},
    FieldsOf types fields → (∀ f ∈ types, f.2.Distinct) → (∀ f ∈ fields, f.2.toDatum.NanFree) →
      ∀ fields', unmarkedFields fields' = unmarkedFields fields → fields' = fields
  | _, _, .nil, _, _, fields', same => by
    cases fields' with
    | nil => rfl
    | cons => cases same
  | _, _, @FieldsOf.cons name type v types fields first rest, distinct, free, fields', same => by
    rw [List.forall_mem_cons] at distinct free
    cases fields' with
    | nil => cases same
    | cons f others =>
      obtain ⟨other, v'⟩ := f
      rw [unmarkedFields, unmarkedFields, List.cons.injEq, Prod.mk.injEq] at same
      rw [same.1.1, first.eq_of_unmarked distinct.1 free.1 v' same.1.2,
        rest.eq_of_unmarked distinct.2 free.2 others same.2]
end

/-! ## Numbers -/

theorem isNan_of_readFloat {p : Primitive} {path : String} {d : Datum} {x : Double} (free : d.NanFree)
    (h : readFloat p path d = .ok x) : x.isNan = false := by
  have rounded : ∀ {y : Double}, y.isNan = false →
      (if p = .f32 then y.roundSingle (.place path) else y).isNan = false := by
    intro y number
    split
    · rw [Double.isNan_roundSingle, number]
    · exact number
  cases d with
  | float y =>
    cases h
    exact rounded ((Datum.each_atom rfl).mp free y rfl)
  | integer i =>
    unfold readFloat Datum.Number.toDouble at h
    dsimp only at h
    split at h
    next y made =>
      cases h
      split at made
      · cases made
      · cases made
        exact rounded rfl
    next => cases h
  | _ => cases h

/-- No result that is no number comes of reading data without one. -/
theorem kept_nanFree : Kept fun a => ∀ x, a = .float x → x.isNan = false where
  scalar {p path d r} free h := by
    cases isScalar_of_readScalar h with
    | single | double =>
      obtain ⟨x, hx, h⟩ := bind_eq_ok.mp h
      cases h
      intro y same
      cases same
      exact isNan_of_readFloat free hx
    | _ => exact fun _ same => nomatch same
  key _ _ same := nomatch same
  bytes _ _ same := nomatch same
  default p x same := by
    cases p <;> cases same
    all_goals rfl

end Value

/-! ## Survival -/

open Value in
/-- Values survive JSON, for types whose structs name each field once: a value without results that are
no numbers is read again just as it was written, whatever path it is read at; and what is read is a
value of the type, without such results when the data have none, and is itself read again as it was, up
to the marks of such results. -/
theorem values_survive_json {type : Ty} (distinct : type.Distinct) :
    (∀ v : Value, v.IsOf type → v.toDatum.NanFree →
      ∃ data, v.toJson = .ok data ∧ ∀ path, ofJson path type data = .ok v) ∧
    ∀ path data v, ofJson path type data = .ok v →
      v.IsOf type ∧ (data.NanFree → v.toDatum.NanFree) ∧
      ∃ written, v.toJson = .ok written ∧ ∀ path', ∃ v', ofJson path' type written = .ok v' ∧
        v'.unmarked = v.unmarked ∧ (v.toDatum.NanFree → v' = v) := by
  have again : ∀ v : Value, v.IsOf type → ∃ written, v.toJson = .ok written ∧
      ∀ path', ∃ v', ofJson path' type written = .ok v' ∧ v'.unmarked = v.unmarked ∧
        (v.toDatum.NanFree → v' = v) := by
    intro v own
    obtain ⟨written, made, read⟩ := own.exists_json Datum.remarks_id distinct
    refine ⟨written, made, fun path' => ?_⟩
    obtain ⟨v', hv, same⟩ := read path'
    exact ⟨v', hv, same, fun free => own.eq_of_unmarked distinct free v' same⟩
  constructor
  · intro v own free
    obtain ⟨written, made, read⟩ := again v own
    refine ⟨written, made, fun path => ?_⟩
    obtain ⟨v', hv, -, same⟩ := read path
    rw [hv, same free]
  · intro path data v h
    have own := isOf_of_ofJson type h
    exact ⟨own, fun free => each_of_ofJson kept_nanFree type free h, again v own⟩

namespace Value

def loan : Ty :=
  .struct "Loan" [("rate", .primitive .f32), ("terms", .array (.struct "" [("days", .primitive .i64)])),
    ("bank", .reference "Bank")]

/-- Members in another order, a whole number for a single one and text for an integer. -/
def loanData : Datum :=
  .record [("bank", .record [("id", .text "b")]), ("terms", .list [.record [("days", .text "90")]]),
    ("rate", .integer 3)]

end Value

open Value in
theorem loan_survives_json : loan.Distinct ∧ loanData.NanFree ∧
    ∃ v, ofJson "loan" loan loanData = .ok v ∧ v.IsOf loan ∧
      ∃ written, v.toJson = .ok written ∧ ∀ path, ofJson path loan written = .ok v := by
  have distinct : loan.Distinct := by
    refine .struct (by decide) ?_
    simp only [List.forall_mem_cons]
    exact ⟨.primitive _, .array (.struct (by decide) (by simp [Ty.Distinct.primitive])), .reference _,
      List.forall_mem_nil _⟩
  have free : loanData.NanFree := by simp [loanData, Datum.NanFree]
  obtain ⟨v, read⟩ : ∃ v, ofJson "loan" loan loanData = .ok v := ⟨_, rfl⟩
  obtain ⟨own, numbers, -⟩ := (values_survive_json distinct).2 _ _ _ read
  exact ⟨distinct, free, v, read, own, (values_survive_json distinct).1 v own (numbers free)⟩

open Value in
/-- Not every value survives: a result that is no number is read from data of single precision and is
another one when it is read again; and of a struct type that names a field twice, a value has two parts
that one member is written for. -/
theorem not_every_value_survives_json :
    (∃ v : Value, ofJson "value" (.primitive .f32) (.float (.nan .literal)) = .ok v ∧
      ¬v.toDatum.NanFree ∧ v.survives (.primitive .f32) "value" = .ok false) ∧
    ∃ (type : Ty) (v : Value), v.IsOf type ∧ v.toDatum.NanFree ∧
      v.survives type "value" = .ok false := by
  constructor
  · exact ⟨.scalar .f32 (.float (.nan (.place "value"))), rfl, by simp [Datum.NanFree, toDatum, Double.isNan], rfl⟩
  · refine ⟨.struct "S" [("a", .string), ("a", .primitive .bytes)],
      .struct [("a", .scalar .string (.text "YR==")), ("a", .scalar .bytes (.bytes [97]))],
      .struct (.cons (.scalar (.string _)) (.cons (.scalar (.bytes _)) .nil)), ?_, rfl⟩
    exact each_struct (by simp [toDatum])

end Covenant
