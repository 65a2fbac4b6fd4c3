import Covenant.Proofs.Datum.Remarking
import Covenant.Proofs.Value.Conformance
/-!
Values with other marks on their results that are no numbers.

* `Value.remarked`: a value with the marks of its parts replaced;
* `Value.ofDatum_remarked`, `Value.encode_remarked`: making a value of data agrees with a replacement,
  and byte forms do not show marks;
* `Value.ofJson_remarked`: data at another path, and with other marks, are read as the same value with
  other marks, if marks are replaced as the path is.
-/

namespace Covenant

/-- The marks of the places below a path become those of the places below another path. -/
def Origin.Moves (f : Origin → Origin) (path path' : String) : Prop :=
  ∀ rest, f (.place (path ++ rest)) = .place (path' ++ rest)

namespace Origin.Moves

variable {f : Origin → Origin} {path path' : String}

theorem below (h : Moves f path path') (rest : String) : Moves f (path ++ rest) (path' ++ rest) := by
  intro later
  rw [String.append_assoc, h, String.append_assoc]

theorem item (h : Moves f path path') (i : Nat) :
    Moves f (Json.itemPath path i) (Json.itemPath path' i) := by
  simp only [Json.itemPath, String.append_assoc]
  exact h.below _

theorem member (h : Moves f path path') (name : String) :
    Moves f (path ++ "." ++ name) (path' ++ "." ++ name) :=
  (h.below ".").below name

theorem here (h : Moves f path path') : f (.place path) = .place path' := by
  have := h ""
  rwa [String.append_empty, String.append_empty] at this

end Origin.Moves

namespace Value

mutual
def remarked (f : Origin → Origin) : Value → Value
  | .scalar p d => .scalar p (d.remarked f)
  | .publicKey d => .publicKey (d.remarked f)
  | .reference d => .reference (d.remarked f)
  | .array items => .array (remarkedItems f items)
  | .struct fields => .struct (remarkedFields f fields)

def remarkedItems (f : Origin → Origin) : List Value → List Value
  | [] => []
  | v :: rest => v.remarked f :: remarkedItems f rest

def remarkedFields (f : Origin → Origin) : List (String × Value) → List (String × Value)
  | [] => []
  | (name, v) :: rest => (name, v.remarked f) :: remarkedFields f rest
end

variable {f : Origin → Origin}

theorem remarkedItems_eq_map (items : List Value) : remarkedItems f items = items.map (remarked f) := by
  induction items with
  | nil => rfl
  | cons v rest ih => rw [remarkedItems, ih, List.map_cons]

theorem remarkedFields_eq_map (fields : List (String × Value)) :
    remarkedFields f fields = fields.map fun m => (m.1, m.2.remarked f) := by
  induction fields with
  | nil => rfl
  | cons m rest ih => rw [remarkedFields, ih, List.map_cons]

@[simp] theorem lookup_remarkedFields (name : String) (fields : List (String × Value)) :
    (remarkedFields f fields).lookup name = (fields.lookup name).map (remarked f) := by
  rw [remarkedFields_eq_map]
  exact lookup_map (fun m => m.2.remarked f) fields name

/-! ## Values and data -/

mutual
theorem toDatum_remarked : ∀ v : Value, (v.remarked f).toDatum = v.toDatum.remarked f
  | .scalar _ _ | .publicKey _ | .reference _ => rfl
  | .array items => by
    rw [remarked, toDatum, toDatum, itemData_remarked, Datum.remarked_list]
  | .struct fields => by
    rw [remarked, toDatum, toDatum, fieldData_remarked, Datum.ofMembers_remarked, Datum.remarked_record]

theorem itemData_remarked : ∀ items : List Value,
    itemData (remarkedItems f items) = (itemData items).map (Datum.remarked f)
  | [] => rfl
  | v :: rest => congrArg₂ List.cons (toDatum_remarked v) (itemData_remarked rest)

theorem fieldData_remarked : ∀ fields : List (String × Value),
    fieldData (remarkedFields f fields) = (fieldData fields).map fun m => (m.1, m.2.remarked f)
  | [] => rfl
  | (name, v) :: rest =>
    congrArg₂ List.cons (congrArg (Prod.mk name) (toDatum_remarked v)) (fieldData_remarked rest)
end

mutual
@[simp] theorem default_remarked : ∀ type : Ty, (default type).remarked f = default type
  | .primitive p => by cases p <;> rfl
  | .publicKey | .reference _ | .array _ => rfl
  | .struct _ types => congrArg struct (defaultFields_remarked types)

@[simp] theorem defaultFields_remarked : ∀ types : List (String × Ty),
    remarkedFields f (defaultFields types) = defaultFields types
  | [] => rfl
  | (name, type) :: rest =>
    congrArg₂ List.cons (congrArg (Prod.mk name) (default_remarked type)) (defaultFields_remarked rest)
end

theorem memberOf_remarked (name : String) (d : Datum) :
    memberOf name (d.remarked f) = Datum.remarked f <$> memberOf name d := by
  cases d with
  | record fields =>
    rw [Datum.remarked_record, memberOf, memberOf, Datum.lookup_remarked]
    cases fields.lookup name <;> rfl
  | list items =>
    rw [Datum.remarked_list]
    rfl
  | _ => rfl

theorem ofItems_remarked {g : Datum → Except Misuse Value}
    (each : ∀ d, g (d.remarked f) = remarked f <$> g d) (data : List Datum) :
    ofItems g (data.map (Datum.remarked f)) = remarkedItems f <$> ofItems g data := by
  induction data with
  | nil => rfl
  | cons d rest ih =>
    rw [List.map_cons, ofItems, ofItems, each, ih]
    exact map_bind_eq fun v => map_bind_eq fun values => rfl

mutual
theorem ofDatum_remarked : ∀ (type : Ty) (d : Datum),
    ofDatum type (d.remarked f) = remarked f <$> ofDatum type d
  | .primitive p, d => rfl
  | .publicKey, d => by
    cases d with
    | list items =>
      rw [Datum.remarked_list]
      exact congrArg (fun d => Except.ok (Value.publicKey d)) (Datum.remarked_list items).symm
    | record fields =>
      rw [Datum.remarked_record]
      exact congrArg (fun d => Except.ok (Value.publicKey d)) (Datum.remarked_record fields).symm
    | _ => rfl
  | .reference _, d => rfl
  | .array element, d => by
    rw [ofDatum, ofDatum, Datum.parts_remarked]
    refine map_bind_eq fun parts => ?_
    rw [ofItems_remarked (ofDatum_remarked element)]
    exact map_bind_eq fun items => rfl
  | .struct _ types, d => by
    rw [ofDatum, ofDatum, ofFields_remarked types d]
    exact map_bind_eq fun fields => rfl

theorem ofFields_remarked : ∀ (types : List (String × Ty)) (d : Datum),
    ofFields types (d.remarked f) = remarkedFields f <$> ofFields types d
  | [], _ => rfl
  | (name, type) :: rest, d => by
    rw [ofFields, ofFields, memberOf_remarked, ofFields_remarked rest d]
    refine map_bind_eq fun member => ?_
    rw [ofDatum_remarked type member]
    exact map_bind_eq fun v => map_bind_eq fun values => rfl
end

/-! ## Byte forms -/

theorem integerBytes_remarked (width : Nat) (low high : Int) (d : Datum) :
    integerBytes width low high (d.remarked f) = integerBytes width low high d := by
  unfold integerBytes
  rw [Datum.number?_remarked]
  rcases d.number? with _ | (_ | _) <;> rfl

theorem doubleOf_remarked (d : Datum) :
    doubleOf (d.remarked f) = Double.remarked f <$> doubleOf d := by
  unfold doubleOf
  rw [Datum.number?_remarked]
  cases d.number? with
  | none => rfl
  | some n =>
    dsimp only [Option.map_some]
    rw [Datum.Number.toDouble_remarked]
    cases n.toDouble <;> rfl

theorem scalarBytes_remarked (p : Primitive) (d : Datum) :
    scalarBytes p (d.remarked f) = scalarBytes p d := by
  cases p with
  | boolean => rw [scalarBytes, scalarBytes, Datum.isTrue_remarked]
  | string | bytes => cases d <;> simp [scalarBytes, Datum.remarked]
  | u32 | u64 | i32 | i64 => rw [scalarBytes, scalarBytes, integerBytes_remarked]
  | f32 =>
    rw [scalarBytes, scalarBytes, doubleOf_remarked]
    rcases doubleOf d with why | (_ | _) <;> rfl
  | f64 =>
    rw [scalarBytes, scalarBytes, doubleOf_remarked]
    rcases doubleOf d with why | (_ | _) <;> rfl

mutual
/-- Byte forms do not show marks. -/
theorem encode_remarked : ∀ v : Value, (v.remarked f).encode = v.encode
  | .scalar p d => scalarBytes_remarked p d
  | .publicKey d => by cases d <;> simp [remarked, encode, Datum.remarked]
  | .reference d => by cases d <;> simp [remarked, encode, Datum.remarked]
  | .array items => by
    rw [remarked, encode, encode, encodeItems_remarked items, remarkedItems_eq_map, List.length_map]
  | .struct fields => by
    rw [remarked, encode, encode, encodeFields_remarked fields, remarkedFields_eq_map, List.length_map]

theorem encodeItems_remarked : ∀ items : List Value,
    encodeItems (remarkedItems f items) = encodeItems items
  | [] => rfl
  | v :: rest => by
    rw [remarkedItems, encodeItems, encodeItems, encode_remarked v, encodeItems_remarked rest]

theorem encodeFields_remarked : ∀ fields : List (String × Value),
    encodeFields (remarkedFields f fields) = encodeFields fields
  | [] => rfl
  | (name, v) :: rest => by
    rw [remarkedFields, encodeFields, encodeFields, encode_remarked v, encodeFields_remarked rest]
end

theorem commitField_remarked (contract field : String) (salt : Int) (v : Value) :
    (v.remarked f).commitField contract field salt = v.commitField contract field salt := by
  rw [commitField, commitField, encode_remarked]

end Value

/-! ## Reading -/

namespace Key

variable {f : Origin → Origin}

theorem isText_remarked (d : Datum) (s : String) : isText (d.remarked f) s = isText d s := by
  cases d <;> simp [isText, Datum.remarked]

theorem readCoordinate_remarked (name : String) (d : Datum) :
    readCoordinate name (d.remarked f) = readCoordinate name d := by
  cases d <;> simp [readCoordinate, Datum.remarked]

theorem ofDatum_remarked {d : Datum} {k : Key} (h : ofDatum d = .ok k) :
    ofDatum (d.remarked f) = .ok k := by
  cases d with
  | record fields =>
    have given : ∀ (name : String) (other : Datum), other.remarked f = other →
        ((fields.map fun m => (m.1, m.2.remarked f)).lookup name).getD other =
          ((fields.lookup name).getD other).remarked f := by
      intro name other plain
      rw [Datum.lookup_remarked]
      cases fields.lookup name with
      | none => exact plain.symm
      | some d => rfl
    rw [ofDatum, readDatum, readRecord] at h
    rw [Datum.remarked_record, ofDatum, readDatum, readRecord, given _ _ rfl, given _ _ rfl, given _ _ rfl,
      given _ _ rfl]
    simp only [isText_remarked, Datum.lookup_remarked]
    split at h
    · cases h
    next kind =>
      rw [if_neg kind]
      cases hx : fields.lookup "x" with
      | none =>
        rw [hx] at h
        cases h
      | some x =>
        cases hy : fields.lookup "y" with
        | none =>
          rw [hx, hy] at h
          cases h
        | some y =>
          rw [hx, hy] at h
          simp only [Option.map_some, readCoordinate_remarked]
          exact h
  | _ => cases h

end Key

namespace Value

variable {f : Origin → Origin} {path path' : String}

theorem readFloat_remarked (moves : Origin.Moves f path path') {p : Primitive} {d : Datum} {x : Double}
    (h : readFloat p path d = .ok x) : readFloat p path' (d.remarked f) = .ok (x.remarked f) := by
  have rounded : ∀ y : Double, (if p = .f32 then (y.remarked f).roundSingle (.place path') else
      y.remarked f) = (if p = .f32 then y.roundSingle (.place path) else y).remarked f := by
    intro y
    split
    · rw [← moves.here, Double.roundSingle_remarked]
    · rfl
  cases d with
  | float y =>
    cases h
    exact congrArg Except.ok (rounded y)
  | integer i =>
    have same := Datum.Number.toDouble_remarked (f := f) (.whole i)
    rw [Datum.Number.remarked] at same
    rw [Datum.remarked]
    unfold readFloat at h ⊢
    dsimp only at h ⊢
    cases made : (Datum.Number.whole i).toDouble with
    | error why =>
      rw [made] at h
      cases h
    | ok y =>
      rw [made] at h same
      cases h
      have whole : y.remarked f = y := (Except.ok.inj same).symm
      have again := rounded y
      rw [whole] at again
      exact congrArg Except.ok again
  | _ => cases h

theorem readInteger_remarked {p : Primitive} {d : Datum} {i : Int} (h : readInteger p path d = .ok i) :
    readInteger p path' (d.remarked f) = .ok i := by
  cases d with
  | integer => exact h
  | text s =>
    rw [readInteger] at h
    rw [Datum.remarked, readInteger]
    split at h
    · cases h
      rfl
    · cases h
  | float x =>
    cases x with
    | nan => cases h
    | number negative r =>
      rw [readInteger] at h
      rw [Datum.remarked, Double.remarked_number, readInteger]
      split at h
      · cases h
        rfl
      · cases h
  | _ => cases h

theorem readScalar_remarked (moves : Origin.Moves f path path') {p : Primitive} {d r : Datum}
    (h : readScalar p path d = .ok r) : readScalar p path' (d.remarked f) = .ok (r.remarked f) := by
  have whole : ∀ {low high : Int}, (do
      let i ← readInteger p path d
      if low ≤ i ∧ i ≤ high then return Datum.integer i else refuseRange p path i) = .ok r → (do
      let i ← readInteger p path' (d.remarked f)
      if low ≤ i ∧ i ≤ high then return Datum.integer i else refuseRange p path' i) =
        .ok (r.remarked f) := by
    intro low high h
    obtain ⟨i, hi, h⟩ := bind_eq_ok.mp h
    rw [readInteger_remarked hi, ok_bind]
    split at h
    next inside =>
      cases h
      rw [if_pos inside]
      rfl
    next =>
      unfold refuseRange at h
      split at h <;> cases h
  cases p with
  | boolean | string =>
    cases d <;> cases h
    rfl
  | bytes =>
    cases d with
    | text s =>
      rw [readScalar] at h
      rw [Datum.remarked, readScalar]
      split at h
      · cases h
        rfl
      · cases h
    | _ => cases h
  | u32 | u64 | i32 | i64 => exact whole h
  | f32 | f64 =>
    obtain ⟨x, hx, h⟩ := bind_eq_ok.mp h
    cases h
    rw [readScalar, readFloat_remarked moves hx]
    rfl

theorem referenceId_remarked (d : Datum) : referenceId (d.remarked f) = (referenceId d).remarked f := by
  cases d with
  | record fields =>
    rw [Datum.remarked_record, referenceId, referenceId, Datum.lookup_remarked]
    cases fields.lookup "id" <;> rfl
  | list items => simp [referenceId]
  | _ => rfl

theorem membersOf_remarked {record : String} {types : List (String × Ty)} {d : Datum} {fields : Fields}
    (h : membersOf path record types d = .ok fields) :
    membersOf path' record types (d.remarked f) = .ok (fields.map fun m => (m.1, m.2.remarked f)) := by
  cases d with
  | record members =>
    rw [membersOf] at h
    split at h
    · cases h
    next known =>
      cases h
      rw [List.find?_eq_none] at known
      have none : (fields.map fun m : String × Datum => (m.1, m.2.remarked f)).find?
          (fun m : String × Datum => !(types.map (·.1)).contains m.1) = none := by
        rw [List.find?_eq_none, List.forall_mem_map]
        exact known
      rw [Datum.remarked_record, membersOf, none]
  | _ => cases h

theorem readItems_remarked {g : String → Datum → Except CallFault Value}
    (each : ∀ {path path' d v}, Origin.Moves f path path' → g path d = .ok v →
      g path' (d.remarked f) = .ok (v.remarked f)) (moves : Origin.Moves f path path') {i : Nat}
    {data : List Datum} {items : List Value} (h : readItems g path i data = .ok items) :
    readItems g path' i (data.map (Datum.remarked f)) = .ok (remarkedItems f items) := by
  induction data generalizing i items with
  | nil =>
    cases h
    rfl
  | cons d rest ih =>
    obtain ⟨v, hv, h⟩ := bind_eq_ok.mp h
    obtain ⟨others, ho, h⟩ := bind_eq_ok.mp h
    cases h
    rw [List.map_cons, readItems, each (moves.item i) hv, ok_bind, ih ho]
    rfl

mutual
/-- Data at a path are read at another one as the same value but for marks. -/
theorem ofJson_remarked : ∀ (type : Ty) {path path' : String} {d : Datum} {v : Value},
    Origin.Moves f path path' → ofJson path type d = .ok v →
      ofJson path' type (d.remarked f) = .ok (v.remarked f)
  | .primitive p, path, path', d, v, moves, h => by
    obtain ⟨r, hr, h⟩ := bind_eq_ok.mp h
    cases h
    rw [ofJson, readScalar_remarked moves hr]
    rfl
  | .publicKey, path, path', d, v, moves, h => by
    rcases ofJson_publicKey_eq_ok h with ⟨rfl, rfl⟩ | ⟨key, read, rfl⟩
    · rfl
    · have same := Key.ofDatum_remarked (f := f) read
      cases d with
      | record fields =>
        rw [Datum.remarked_record] at same ⊢
        rw [ofJson.eq_def]
        dsimp only
        rw [same]
        rfl
      | _ => cases read
  | .reference contract, path, path', d, v, moves, h => by
    rw [ofJson] at h
    split at h
    next id hid =>
      cases h
      rw [ofJson, referenceId_remarked, hid]
      rfl
    next => cases h
  | .array element, path, path', d, v, moves, h => by
    cases d with
    | list items =>
      obtain ⟨values, hv, h⟩ := bind_eq_ok.mp h
      cases h
      rw [Datum.remarked_list, ofJson.eq_def]
      dsimp only
      rw [readItems_remarked (fun moves h => ofJson_remarked element moves h) moves hv]
      rfl
    | _ => cases h
  | .struct name types, path, path', d, v, moves, h => by
    obtain ⟨fields, hf, h⟩ := bind_eq_ok.mp h
    obtain ⟨values, hv, h⟩ := bind_eq_ok.mp h
    cases h
    rw [ofJson, membersOf_remarked hf, ok_bind, ofJsonFields_remarked types moves hv]
    rfl

theorem ofJsonFields_remarked : ∀ (types : List (String × Ty)) {path path' : String} {data : Fields}
    {fields : List (String × Value)}, Origin.Moves f path path' →
      ofJsonFields path types data = .ok fields →
      ofJsonFields path' types (data.map fun m => (m.1, m.2.remarked f)) =
        .ok (remarkedFields f fields)
  | [], _, _, _, fields, _, h => by
    cases h
    rfl
  | (name, type) :: rest, path, path', data, fields, moves, h => by
    rw [ofJsonFields] at h ⊢
    rw [Datum.lookup_remarked]
    split at h
    · cases h
    next d found =>
      obtain ⟨v, hv, h⟩ := bind_eq_ok.mp h
      obtain ⟨others, ho, h⟩ := bind_eq_ok.mp h
      cases h
      rw [found]
      dsimp only [Option.map_some]
      rw [ofJson_remarked type (moves.member name) hv, ok_bind, ofJsonFields_remarked rest moves ho]
      rfl
end

end Value

end Covenant
