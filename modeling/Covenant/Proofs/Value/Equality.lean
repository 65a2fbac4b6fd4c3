import Covenant.Proofs.Value.Conformance
/-!
Equality of data.

* `Datum.same_iff_eq_or`, `Datum.eq_nan`: being the same and being equal are one relation, but for values that
  are not numbers;
* `Ty.Exact`: a type without floats;
* `Datum.Conforms.same_iff`: data of such a type are the same only if nothing distinguishes them.
-/

namespace Covenant

namespace Datum

theorem sameOrigin_iff {x y : Double} :
    sameOrigin x y = true ↔ ∃ origin, x = .nan origin ∧ y = .nan origin := by
  cases x <;> cases y <;> simp [sameOrigin, @eq_comm Origin]

theorem same_float (x y : Double) : same (.float x) (.float y) = (x.eq y || sameOrigin x y) := by
  have numbers : sameNumber (.double x) (some (.double y)) = x.eq y := by
    rw [sameNumber, Number.eq, Number.compare]
    cases x.eq y <;> cases x.lt y <;> cases y.lt x <;> rfl
  rw [same, number?, numbers]

/-- Data are the same if they are equal, and a value that is not a number is the same as itself. -/
theorem same_iff_eq_or (a b : Datum) :
    same a b = true ↔ a.eq b = true ∨ ∃ origin, a = .float (.nan origin) ∧ b = .float (.nan origin) := by
  unfold eq
  split
  next x y => simp [same_float, sameOrigin_iff]
  next other => exact ⟨.inl, fun h => h.resolve_right fun ⟨o, first, second⟩ => other _ _ first second⟩

/-- Nothing equals a value that is not a number. -/
theorem eq_nan (a : Datum) (origin : Origin) : a.eq (.float (.nan origin)) = false := by
  cases a with
  | float x => cases x <;> rfl
  | boolean | integer => simp [eq, same, sameNumber, number?, Number.eq, Number.compare, Double.compareInt]
  | _ => rfl

end Datum

/-! ## Types without floats -/

/-- A type of which no part is a float, and in whose structs all fields have different names. -/
inductive Ty.Exact : Ty → Prop
  | primitive {p : Primitive} (h : p.isFloat = false) : Exact (.primitive p)
  | publicKey : Exact .publicKey
  | reference (contract : String) : Exact (.reference contract)
  | array {element : Ty} (h : Exact element) : Exact (.array element)
  | struct {name : String} {fields : List (String × Ty)} (nodup : (fields.map Prod.fst).Nodup)
      (parts : ∀ f ∈ fields, Exact f.2) : Exact (.struct name fields)

namespace Datum

variable {r : Leaves}

theorem same_booleans (x y : Bool) : same (.boolean x) (.boolean y) = (x == y) := by
  cases x <;> cases y <;> simp [same, sameNumber, number?, Number.eq, Number.compare]

theorem same_integers (i j : Int) : same (.integer i) (.integer j) = (i == j) := by
  rw [Bool.eq_iff_iff, beq_iff_eq]
  simp [same, sameNumber, number?, Number.eq, Number.compare]

theorem same_scalars {p : Primitive} (exact : p.isFloat = false) {a b : Datum} (ha : IsScalar p a)
    (hb : IsScalar p b) : same a b = true ↔ a = b := by
  cases ha with
  | boolean x =>
    cases hb with
    | boolean y => rw [same_booleans, beq_iff_eq, Datum.boolean.injEq]
    | integer range => cases range
  | string =>
    cases hb with
    | string => simp [same]
    | integer range => cases range
  | bytes =>
    cases hb with
    | bytes => simp [same]
    | integer range => cases range
  | single | double => cases exact
  | integer range =>
    cases hb with
    | integer => rw [same_integers, beq_iff_eq, Datum.integer.injEq]
    | _ => cases range

/-- A member of another name does not matter. -/
theorem sameFields_cons {as bs : Fields} {name : String} (others : ∀ f ∈ as, f.1 ≠ name) (b : Datum) :
    sameFields as ((name, b) :: bs) = sameFields as bs := by
  induction as with
  | nil => rfl
  | cons f rest ih =>
    obtain ⟨other, a⟩ := f
    obtain ⟨first, others⟩ := List.forall_mem_cons.mp others
    rw [sameFields, sameFields, List.lookup_cons, beq_false_of_ne first, ih others]

theorem same_null (a : Datum) : same a .null = true ↔ a = .null := by
  cases a <;> simp [same, sameNumber, number?]

theorem null_same (a : Datum) : same .null a = true ↔ .null = a := by
  cases a <;> simp [same]

/-- Lists are the same if their items are. -/
theorem sameItems_iff {as bs : List Datum} (each : ∀ a ∈ as, ∀ b ∈ bs, same a b = true ↔ a = b) :
    sameItems as bs = true ↔ as = bs := by
  induction as generalizing bs with
  | nil => cases bs <;> simp [sameItems]
  | cons a as ih =>
    cases bs with
    | nil => simp [sameItems]
    | cons b bs =>
      have first := each a List.mem_cons_self b List.mem_cons_self
      have rest := ih fun a ha b hb => each a (List.mem_cons_of_mem _ ha) b (List.mem_cons_of_mem _ hb)
      rw [sameItems, Bool.and_eq_true, first, rest, List.cons.injEq]

/-- Members in one order are the same if their data are. -/
theorem FieldsConform.same_iff {types : List (String × Ty)} (nodup : (types.map Prod.fst).Nodup)
    {as bs : Fields} (ha : FieldsConform r types as) (hb : FieldsConform r types bs)
    (each : ∀ f ∈ types, ∀ {a b}, Conforms r f.2 a → Conforms r f.2 b → (same a b = true ↔ a = b)) :
    sameFields as bs = true ↔ as = bs := by
  induction types generalizing as bs with
  | nil =>
    cases ha
    cases hb
    simp [sameFields]
  | cons f types ih =>
    cases ha with
    | @cons name _ _ _ as first others =>
      cases hb with
      | cons first' others' =>
        obtain ⟨new, nodup⟩ := List.nodup_cons.mp nodup
        obtain ⟨own, each⟩ := List.forall_mem_cons.mp each
        have skipped : ∀ g ∈ as, g.1 ≠ name := by
          rintro g hg rfl
          exact new (others.names ▸ List.mem_map_of_mem hg)
        rw [sameFields, List.lookup_cons_self, sameFields_cons skipped, Bool.and_eq_true,
          own first first', ih nodup others others' each]
        simp

/-- Data of one type without floats are the same only if nothing distinguishes them. -/
theorem Conforms.same_iff {t : Ty} (exact : t.Exact) {a b : Datum} (ha : Conforms r t a)
    (hb : Conforms r t b) : same a b = true ↔ a = b := by
  induction exact generalizing a b with
  | primitive h =>
    cases ha with
    | absent => exact null_same b
    | scalar first =>
      cases hb with
      | absent => exact same_null a
      | scalar second => exact same_scalars h first second
  | publicKey =>
    cases ha with
    | absent => exact null_same b
    | publicKey =>
      cases hb with
      | absent => exact same_null _
      | publicKey => simp [same]
  | reference =>
    cases ha with
    | absent => exact null_same b
    | reference =>
      cases hb with
      | absent => exact same_null _
      | reference => simp [same]
  | array _ ih =>
    cases ha with
    | absent => exact null_same b
    | array each =>
      cases hb with
      | absent => exact same_null _
      | array each' =>
        rw [same, sameItems_iff fun a ha b hb => ih (each a ha) (each' b hb), Datum.list.injEq]
  | struct nodup _ ih =>
    cases ha with
    | absent => exact null_same b
    | struct all =>
      cases hb with
      | absent => exact same_null _
      | struct all' =>
        have length := congrArg List.length (all.names.trans all'.names.symm)
        rw [List.length_map, List.length_map] at length
        rw [same, length, beq_self_eq_true, Bool.true_and,
          all.same_iff nodup all' fun f hf => ih f hf, Datum.record.injEq]

end Datum

end Covenant
