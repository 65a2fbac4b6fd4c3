import Covenant.Proofs.Text.Base64
import Covenant.Proofs.Text.Utf8
import Covenant.Proofs.Value.Conformance
import Covenant.Session
/-!
Values that are written as JSON data and read again.

* `Value.unmarked`: a value without the marks of its parts that are no numbers;
* `Datum.Remarks`: a way to change only these marks in data, such as carrying a record into the next
  call of a session (`Session.remarks_carried`);
* `Value.IsOf.exists_json`: a value of a type is written, and read again as the value it was but for
  these marks.
-/

namespace Covenant

/-! ## Marks -/

/-- The number, or the one result that is no number. -/
def Double.unmarked : Double → Double
  | .nan _ => .nan .literal
  | x => x

/-- A datum that is no list and no record, without its mark. -/
def Datum.unmarked : Datum → Datum
  | .float x => .float x.unmarked
  | d => d

namespace Value

mutual
def unmarked : Value → Value
  | .scalar p d => .scalar p d.unmarked
  | .publicKey d => .publicKey d
  | .reference d => .reference d
  | .array items => .array (unmarkedItems items)
  | .struct fields => .struct (unmarkedFields fields)

def unmarkedItems : List Value → List Value
  | [] => []
  | v :: rest => v.unmarked :: unmarkedItems rest

def unmarkedFields : List (String × Value) → List (String × Value)
  | [] => []
  | (name, v) :: rest => (name, v.unmarked) :: unmarkedFields rest
end

end Value

theorem Double.unmarked_roundSingle {x y : Double} (single : x.IsSingle) (same : y.unmarked = x.unmarked)
    (origin : Origin) : (y.roundSingle origin).unmarked = x.unmarked := by
  cases x with
  | nan o =>
    cases y with
    | nan o' => rfl
    | number => cases same
  | number negative r =>
    cases y with
    | nan => cases same
    | number negative' r' =>
      cases same
      rcases single with nan | rounded
      · cases nan
      · exact congrArg Double.unmarked rounded

/-- A change of data that is one of marks only. -/
structure Datum.Remarks (g : Datum → Datum) : Prop where
  null : g .null = .null
  boolean : ∀ b, g (.boolean b) = .boolean b
  integer : ∀ i, g (.integer i) = .integer i
  text : ∀ s, g (.text s) = .text s
  float : ∀ x, ∃ y, g (.float x) = .float y ∧ y.unmarked = x.unmarked
  list : ∀ items, g (.list items) = .list (items.map g)
  record : ∀ fields, g (.record fields) = .record (fields.map fun f => (f.1, g f.2))

theorem Datum.remarks_id : Datum.Remarks id where
  null := rfl
  boolean _ := rfl
  integer _ := rfl
  text _ := rfl
  float x := ⟨x, rfl, rfl⟩
  list items := by simp
  record fields := by simp

namespace Session

theorem carriedItems_eq_map (call : Nat) (items : List Datum) :
    carriedItems call items = items.map (carried call) := by
  induction items with
  | nil => rfl
  | cons d rest ih => rw [carriedItems, ih, List.map_cons]

theorem carriedFields_eq_map (call : Nat) (fields : Fields) :
    carriedFields call fields = fields.map fun f => (f.1, carried call f.2) := by
  induction fields with
  | nil => rfl
  | cons f rest ih => rw [carriedFields, ih, List.map_cons]

/-- Carrying a record into the next call changes marks only. -/
theorem remarks_carried (call : Nat) : Datum.Remarks (carried call) where
  null := by simp [carried]
  boolean b := by simp [carried]
  integer i := by simp [carried]
  text s := by simp [carried]
  float x := by
    cases x with
    | nan o =>
      cases o with
      | computed n => exact ⟨.nan (.carried call n), by rw [carried], rfl⟩
      | _ => exact ⟨_, by simp [carried], rfl⟩
    | number negative r => exact ⟨_, by simp [carried], rfl⟩
  list items := by rw [carried, carriedItems_eq_map]
  record fields := by rw [carried, carriedFields_eq_map]

end Session

/-! ## Scalars and keys -/

section
variable {g : Datum → Datum}

theorem IsScalar.exists_json (remarks : Datum.Remarks g) {p : Primitive} {d : Datum} (h : IsScalar p d) :
    ∃ j, (Value.scalar p d).toJson = .ok j ∧ ∀ path, ∃ d', Value.readScalar p path (g j) = .ok d' ∧
      d'.unmarked = d.unmarked := by
  cases h with
  | boolean b => exact ⟨_, rfl, fun path => ⟨_, by rw [remarks.boolean]; rfl, rfl⟩⟩
  | string s => exact ⟨_, rfl, fun path => ⟨_, by rw [remarks.text]; rfl, rfl⟩⟩
  | bytes b =>
    refine ⟨_, rfl, fun path => ⟨.bytes b, ?_, rfl⟩⟩
    simp only [remarks.text, Value.readScalar, Text.Base64.readStrict_write]
  | @single x single =>
    obtain ⟨y, hy, same⟩ := remarks.float x
    refine ⟨_, rfl, fun path => ⟨.float (y.roundSingle (.place path)), by rw [hy]; rfl, ?_⟩⟩
    exact congrArg Datum.float (Double.unmarked_roundSingle single same _)
  | double x =>
    obtain ⟨y, hy, same⟩ := remarks.float x
    exact ⟨_, rfl, fun path => ⟨.float y, by rw [hy]; rfl, congrArg Datum.float same⟩⟩
  | @integer _ low high n range least greatest =>
    have written : (Value.scalar p (.integer n)).toJson = .ok (.integer n) := by
      cases p <;> first | rfl | cases range
    refine ⟨_, written, fun path => ⟨.integer n, ?_, rfl⟩⟩
    have read : Value.readScalar p path (.integer n) =
        if low ≤ n ∧ n ≤ high then .ok (.integer n) else Value.refuseRange p path n := by
      cases p <;> cases range <;> rfl
    rw [remarks.integer, read, if_pos ⟨least, greatest⟩]

theorem Key.ofDatum_toRecord (remarks : Datum.Remarks g) {k : Key} (point : k.IsPoint) :
    Key.ofDatum (g (.record k.toRecord)) = .ok k := by
  have same : k.toRecord.map (fun f => (f.1, g f.2)) = k.toRecord := by
    simp [toRecord, remarks.text]
  rw [remarks.record, same]
  exact readDatum_toRecord point

/-! ## Values -/

namespace Value

open Json (itemPath)

/-- Values that are written and read again one by one are so as a list. -/
theorem exists_jsonItems {element : Ty} {items : List Value}
    (each : ∀ v ∈ items, ∃ j, v.toJson = .ok j ∧ ∀ path, ∃ v', ofJson path element (g j) = .ok v' ∧
      v'.unmarked = v.unmarked) :
    ∃ data, toJsonItems items = .ok data ∧ ∀ path i, ∃ items',
      readItems (fun path d => ofJson path element d) path i (data.map g) = .ok items' ∧
        unmarkedItems items' = unmarkedItems items := by
  induction items with
  | nil => exact ⟨[], rfl, fun path i => ⟨[], rfl, rfl⟩⟩
  | cons v rest ih =>
    rw [List.forall_mem_cons] at each
    obtain ⟨j, written, read⟩ := each.1
    obtain ⟨data, others, readOthers⟩ := ih each.2
    refine ⟨j :: data, by rw [toJsonItems, written, ok_bind, others]; rfl, fun path i => ?_⟩
    obtain ⟨v', hv, same⟩ := read (itemPath path i)
    obtain ⟨items', hi, sameItems⟩ := readOthers path (i + 1)
    refine ⟨v' :: items', by rw [List.map_cons, readItems, hv, ok_bind, hi]; rfl, ?_⟩
    rw [unmarkedItems, unmarkedItems, same, sameItems]

/-- Members of the declared names, each where it is looked for, are members of a record. -/
theorem membersOf_eq_ok {path name : String} {types : List (String × Ty)} {fields : Fields}
    (names : fields.map Prod.fst = types.map Prod.fst) :
    membersOf path name types (.record fields) = .ok fields := by
  have none : fields.find? (fun f => !(types.map (·.1)).contains f.1) = none := by
    rw [List.find?_eq_none]
    intro f hf
    have here : f.1 ∈ types.map Prod.fst := names ▸ List.mem_map_of_mem hf
    simpa using here
  rw [membersOf, none]

mutual
/-- A value of a type is written as JSON data, and read again as it was but for marks. -/
theorem IsOf.exists_json (remarks : Datum.Remarks g) : ∀ {type : Ty} {v : Value}, v.IsOf type →
    type.Distinct → ∃ j, v.toJson = .ok j ∧ ∀ path, ∃ v', ofJson path type (g j) = .ok v' ∧
      v'.unmarked = v.unmarked
  | _, _, .scalar h, _ => by
    obtain ⟨j, written, read⟩ := h.exists_json remarks
    refine ⟨j, written, fun path => ?_⟩
    obtain ⟨d', hd, same⟩ := read path
    exact ⟨.scalar _ d', by rw [ofJson, hd]; rfl, by rw [unmarked, unmarked, same]⟩
  | _, _, @IsOf.publicKey k valid, _ => by
    rcases valid with rfl | point
    · exact ⟨.null, rfl, fun path => ⟨_, by rw [remarks.null]; rfl, rfl⟩⟩
    · refine ⟨.record k.toRecord, by rw [toJson, Key.isNull_of_isPoint point]; rfl, fun path => ⟨_, ?_, rfl⟩⟩
      have read := Key.ofDatum_toRecord remarks point
      rw [remarks.record] at read ⊢
      simp only [ofJson, read]
  | _, _, .reference contract id, _ => by
    refine ⟨_, rfl, fun path => ⟨.reference (.bytes (Text.utf8 id)), ?_, rfl⟩⟩
    rw [remarks.record]
    simp only [List.map_cons, List.map_nil, remarks.text, Text.ofUtf8_utf8]
    rfl
  | _, _, @IsOf.array element items each, .array distinct => by
    obtain ⟨data, written, read⟩ := exists_jsonItems fun v hv => (each v hv).exists_json remarks distinct
    refine ⟨.list data, by rw [toJson, written]; rfl, fun path => ?_⟩
    obtain ⟨items', hi, same⟩ := read path 0
    refine ⟨.array items', ?_, by rw [unmarked, unmarked, same]⟩
    rw [remarks.list]
    simp only [ofJson, hi]
    rfl
  | _, _, @IsOf.struct name types fields all, .struct nodup parts => by
    obtain ⟨data, written, names, read⟩ := all.exists_json remarks parts
    have distinct : (data.map Prod.fst).Nodup := names ▸ nodup
    refine ⟨.record data, by rw [toJson, written, ok_bind, ofMembers_of_nodup distinct]; rfl,
      fun path => ?_⟩
    have kept : (data.map fun f => (f.1, g f.2)).map Prod.fst = data.map Prod.fst := by
      rw [List.map_map]
      rfl
    obtain ⟨values, hv, same⟩ := read path (data.map fun f => (f.1, g f.2)) fun f hf =>
      lookup_of_mem (kept ▸ distinct) (List.mem_map_of_mem hf)
    refine ⟨.struct values, ?_, by rw [unmarked, unmarked, same]⟩
    rw [remarks.record, ofJson, membersOf_eq_ok (kept.trans names), ok_bind, hv]
    rfl

theorem FieldsOf.exists_json (remarks : Datum.Remarks g) : ∀ {types : List (String × Ty)}
    {fields : List (String × Value)}, FieldsOf types fields → (∀ f ∈ types, f.2.Distinct) →
      ∃ data, toJsonFields fields = .ok data ∧ data.map Prod.fst = types.map Prod.fst ∧
        ∀ path all, (∀ f ∈ data, all.lookup f.1 = some (g f.2)) → ∃ values,
          ofJsonFields path types all = .ok values ∧ unmarkedFields values = unmarkedFields fields
  | _, _, .nil, _ => ⟨[], rfl, rfl, fun path all _ => ⟨[], rfl, rfl⟩⟩
  | _, _, @FieldsOf.cons name type v types fields first rest, distinct => by
    rw [List.forall_mem_cons] at distinct
    obtain ⟨j, written, read⟩ := first.exists_json remarks distinct.1
    obtain ⟨data, others, names, readOthers⟩ := rest.exists_json remarks distinct.2
    refine ⟨(name, j) :: data, by rw [toJsonFields, written, ok_bind, others]; rfl,
      congrArg (name :: ·) names, fun path all held => ?_⟩
    rw [List.forall_mem_cons] at held
    obtain ⟨v', hv, same⟩ := read (path ++ "." ++ name)
    obtain ⟨values, hvs, sameFields⟩ := readOthers path all held.2
    refine ⟨(name, v') :: values, ?_, by rw [unmarkedFields, unmarkedFields, same, sameFields]⟩
    rw [ofJsonFields, held.1]
    dsimp only
    rw [hv, ok_bind, hvs]
    rfl
end

end Value

end

end Covenant
