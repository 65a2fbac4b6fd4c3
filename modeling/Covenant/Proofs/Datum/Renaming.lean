import Covenant.Proofs.Datum.Remarking
import Mathlib.Logic.Equiv.Basic
/-!
Renaming the marks of results that are no numbers by the numbers of the operations that they stand for.

* `Datum.renamed`: data with these numbers renamed, which is one way to replace marks
  (`Datum.renamed_eq`), so that each operation on data agrees with it;
* `Datum.Before`: the marks in a datum are those of operations before a number.
-/

namespace Covenant

def Origin.renamed (f : Nat → Nat) : Origin → Origin
  | .computed k => .computed (f k)
  | o => o

def Double.renamed (f : Nat → Nat) : Double → Double
  | .nan o => .nan (o.renamed f)
  | .number negative r => .number negative r

namespace Datum

mutual
/-- A datum with the marks of computed parts renamed. -/
def renamed (f : Nat → Nat) : Datum → Datum
  | .float x => .float (x.renamed f)
  | .list items => .list (renamedItems f items)
  | .record fields => .record (renamedFields f fields)
  | .null => .null
  | .boolean b => .boolean b
  | .integer i => .integer i
  | .text s => .text s
  | .bytes b => .bytes b
  | .key k => .key k

def renamedItems (f : Nat → Nat) : List Datum → List Datum
  | [] => []
  | d :: rest => d.renamed f :: renamedItems f rest

def renamedFields (f : Nat → Nat) : List (String × Datum) → List (String × Datum)
  | [] => []
  | (name, d) :: rest => (name, d.renamed f) :: renamedFields f rest
end

end Datum

def Failure.renamed (f : Nat → Nat) : Failure → Failure
  | .outOfBounds index length => .outOfBounds (index.renamed f) length
  | failure => failure

def Datum.renamedAnswer (f : Nat → Nat) : Except Failure Datum → Except Failure Datum
  | .ok d => .ok (d.renamed f)
  | .error failure => .error (failure.renamed f)

/-! ## Renaming replaces marks -/

theorem Origin.renamed_injective {f : Nat → Nat} (inj : f.Injective) : (Origin.renamed f).Injective := by
  intro a b h
  cases a <;> cases b <;> simp_all [Origin.renamed, inj.eq_iff]

theorem Double.renamed_eq (f : Nat → Nat) : Double.renamed f = Double.remarked (Origin.renamed f) := by
  funext x
  cases x <;> rfl

namespace Datum

variable {f : Nat → Nat} {o : Origin}

theorem renamed_eq (f : Nat → Nat) : renamed f = remarked (Origin.renamed f) := by
  funext d
  induction d using byParts with
  | atom d plain =>
    cases d with
    | float x => exact congrArg Datum.float (congrFun (Double.renamed_eq f) x)
    | list | record => cases plain
    | _ => rfl
  | list items ih =>
    have each : renamedItems f items = items.map (remarked (Origin.renamed f)) := by
      induction items with
      | nil => rfl
      | cons d rest ihs =>
        rw [List.forall_mem_cons] at ih
        rw [renamedItems, ih.1, ihs ih.2, List.map_cons]
    rw [renamed, each, remarked_list]
  | record fields ih =>
    have each : renamedFields f fields = fields.map fun m => (m.1, m.2.remarked (Origin.renamed f)) := by
      induction fields with
      | nil => rfl
      | cons m rest ihs =>
        rw [List.forall_mem_cons] at ih
        rw [renamedFields, ih.1, ihs ih.2, List.map_cons]
    rw [renamed, each, remarked_record]

end Datum

theorem Failure.renamed_eq (f : Nat → Nat) : Failure.renamed f = Failure.remarked (Origin.renamed f) := by
  funext failure
  cases failure with
  | outOfBounds index length =>
    exact congrArg (Failure.outOfBounds · length) (congrFun (Datum.renamed_eq f) index)
  | _ => rfl

namespace Datum

variable {f : Nat → Nat} {o : Origin}

theorem renamedAnswer_eq (f : Nat → Nat) : renamedAnswer f = remarkedAnswer (Origin.renamed f) := by
  funext r
  cases r with
  | ok d => exact congrArg Except.ok (congrFun (renamed_eq f) d)
  | error failure => exact congrArg Except.error (congrFun (Failure.renamed_eq f) failure)

@[simp] theorem renamed_list (items : List Datum) :
    (list items).renamed f = .list (items.map (renamed f)) := by
  rw [renamed_eq, remarked_list]

@[simp] theorem renamed_record (fields : Fields) :
    (record fields).renamed f = .record (fields.map fun m => (m.1, m.2.renamed f)) := by
  rw [renamed_eq, remarked_record]

theorem eq_renamed (inj : f.Injective) (a b : Datum) : (a.renamed f).eq (b.renamed f) = a.eq b := by
  rw [renamed_eq]
  exact eq_remarked (Origin.renamed_injective inj) a b

theorem order_renamed (inj : f.Injective) (o : Order) (a b : Datum) :
    (a.renamed f).order o (b.renamed f) = a.order o b := by
  rw [renamed_eq]
  exact order_remarked (Origin.renamed_injective inj) o a b

theorem plus_renamed (a b : Datum) :
    (a.renamed f).plus (o.renamed f) (b.renamed f) = renamed f <$> a.plus o b := by
  rw [renamed_eq]
  exact plus_remarked a b

theorem arith_renamed (inj : f.Injective) (op : Arith) (p : Primitive) (a b : Datum) :
    (a.renamed f).arith (o.renamed f) op p (b.renamed f) = renamed f <$> a.arith o op p b := by
  rw [renamed_eq]
  exact arith_remarked (Origin.renamed_injective inj) op p a b

@[simp] theorem isTrue_renamed (d : Datum) : (d.renamed f).isTrue = d.isTrue := by
  rw [renamed_eq, isTrue_remarked]

@[simp] theorem holds_renamed (d : Datum) : (d.renamed f).holds = d.holds := by
  rw [renamed_eq, holds_remarked]

theorem size_renamed (d : Datum) : (d.renamed f).size = d.size := by
  rw [renamed_eq, size_remarked]

theorem member_renamed (name : String) (d : Datum) :
    (d.renamed f).member name = renamed f <$> d.member name := by
  rw [renamed_eq, member_remarked]

theorem setField_renamed (name : String) (value : Datum) (fields : Fields) :
    setField name (value.renamed f) (fields.map fun m => (m.1, m.2.renamed f)) =
      (setField name value fields).map fun m => (m.1, m.2.renamed f) := by
  rw [renamed_eq]
  exact setField_remarked name value fields

theorem withMember_renamed (d : Datum) (name : String) (value : Datum) :
    (d.renamed f).withMember name (value.renamed f) = renamed f <$> d.withMember name value := by
  rw [renamed_eq, withMember_remarked]

theorem appended_renamed (d value : Datum) :
    (d.renamed f).appended (value.renamed f) = renamed f <$> d.appended value := by
  rw [renamed_eq, appended_remarked]

theorem indexOf_renamed (inj : f.Injective) (d target : Datum) :
    (d.renamed f).indexOf (target.renamed f) = renamed f <$> d.indexOf target := by
  rw [renamed_eq, indexOf_remarked (Origin.renamed_injective inj)]

theorem includes_renamed (inj : f.Injective) (d target : Datum) :
    (d.renamed f).includes (target.renamed f) = d.includes target := by
  rw [renamed_eq, includes_remarked (Origin.renamed_injective inj)]

theorem renamedAnswer_arith (op : Arith) (p : Primitive) (a b : Datum) :
    renamedAnswer f (a.arith o op p b) = renamed f <$> a.arith o op p b := by
  rw [renamedAnswer_eq, renamed_eq, remarkedAnswer_arith]

/-- Misuse has no marks. -/
theorem renamedAnswer_lift (r : Except Misuse Datum) :
    renamedAnswer f (Failure.lift r) = Failure.lift (renamed f <$> r) := by
  rw [renamedAnswer_eq, renamed_eq, remarkedAnswer_lift]

/-- What is a place has no mark. -/
theorem renamed_of_checkPlace {index : Datum} {length : Except Misuse Nat}
    (h : checkPlace index length = .ok ()) : index.renamed f = index := by
  rw [renamed_eq, remarked_of_checkPlace h]

theorem element_renamed (d index : Datum) :
    (d.renamed f).element (index.renamed f) = renamedAnswer f (d.element index) := by
  rw [renamed_eq, renamedAnswer_eq, element_remarked]

theorem withElement_renamed (d index value : Datum) :
    (d.renamed f).withElement (index.renamed f) (value.renamed f) =
      renamedAnswer f (d.withElement index value) := by
  rw [renamed_eq, renamedAnswer_eq, withElement_remarked]

/-- Messages do not show marks. -/
theorem shown_renamed (d : Datum) : (d.renamed f).shown = d.shown := by
  rw [renamed_eq, shown_remarked]

end Datum

theorem Origin.renamed_renamed (g h : Nat → Nat) (o : Origin) :
    (o.renamed g).renamed h = o.renamed fun k => h (g k) := by
  cases o <;> rfl

theorem Datum.renamed_renamed (g h : Nat → Nat) (d : Datum) :
    (d.renamed g).renamed h = d.renamed fun k => h (g k) := by
  rw [renamed_eq, renamed_eq, renamed_eq, remarked_remarked]
  exact congrArg (d.remarked ·) (funext fun o => o.renamed_renamed g h)

/-- A failure with all marks in its data made one. -/
def Failure.upToMarks (failure : Failure) : Failure := failure.renamed fun _ => 0

theorem Failure.upToMarks_renamed {f : Nat → Nat} (failure : Failure) :
    (failure.renamed f).upToMarks = failure.upToMarks := by
  cases failure with
  | outOfBounds index length =>
    simp only [upToMarks, renamed, Datum.renamed_renamed]
  | _ => rfl

/-! ## Marks of earlier operations -/

/-- The operations that the marks in data stand for. -/
def Double.marks : Double → List Nat
  | .nan (.computed k) => [k]
  | _ => []

namespace Datum

mutual
def marks : Datum → List Nat
  | .float x => x.marks
  | .list items => marksOfItems items
  | .record fields => marksOfFields fields
  | .null | .boolean _ | .integer _ | .text _ | .bytes _ | .key _ => []

def marksOfItems : List Datum → List Nat
  | [] => []
  | d :: rest => d.marks ++ marksOfItems rest

def marksOfFields : List (String × Datum) → List Nat
  | [] => []
  | (_, d) :: rest => d.marks ++ marksOfFields rest
end

variable {f : Nat → Nat} {n : Nat}

@[simp] theorem marks_list (items : List Datum) : (list items).marks = items.flatMap marks := by
  rw [marks]
  induction items with
  | nil => rfl
  | cons d rest ih => rw [marksOfItems, ih, List.flatMap_cons]

@[simp] theorem marks_record (fields : Fields) :
    (record fields).marks = fields.flatMap fun m => m.2.marks := by
  rw [marks]
  induction fields with
  | nil => rfl
  | cons m rest ih => rw [marksOfFields, ih, List.flatMap_cons]

theorem marks_renamed (d : Datum) : (d.renamed f).marks = d.marks.map f := by
  induction d using byParts with
  | atom d plain =>
    cases d with
    | float x =>
      cases x with
      | nan o => cases o <;> rfl
      | number => rfl
    | list | record => cases plain
    | _ => rfl
  | list items ih =>
    rw [renamed_list, marks_list, marks_list, List.flatMap_map, List.map_flatMap]
    exact List.flatMap_congr ih
  | record fields ih =>
    rw [renamed_record, marks_record, marks_record, List.flatMap_map, List.map_flatMap]
    exact List.flatMap_congr ih

/-- Only the marks that are there count. -/
theorem renamed_congr {g : Nat → Nat} {d : Datum} (h : ∀ k ∈ d.marks, f k = g k) :
    d.renamed f = d.renamed g := by
  induction d using byParts with
  | atom d plain =>
    cases d with
    | float x =>
      cases x with
      | nan o =>
        cases o with
        | computed k =>
          have same : f k = g k := h k List.mem_cons_self
          simp [renamed, Double.renamed, Origin.renamed, same]
        | _ => rfl
      | number => rfl
    | list | record => cases plain
    | _ => rfl
  | list items ih =>
    rw [marks_list, List.forall_mem_flatMap] at h
    rw [renamed_list, renamed_list, List.map_congr_left fun d hd => ih d hd (h d hd)]
  | record fields ih =>
    rw [marks_record, List.forall_mem_flatMap] at h
    rw [renamed_record, renamed_record]
    refine congrArg record (List.map_congr_left fun m hm => ?_)
    rw [ih m hm (h m hm)]

@[simp] theorem renamed_id (d : Datum) : d.renamed id = d := by
  induction d using byParts with
  | atom d plain =>
    cases d with
    | float x =>
      cases x with
      | nan o => cases o <;> rfl
      | number => rfl
    | list | record => cases plain
    | _ => rfl
  | list items ih => rw [renamed_list, List.map_congr_left ih, List.map_id']
  | record fields ih =>
    rw [renamed_record]
    refine congrArg record ((List.map_congr_left fun m hm => ?_).trans (List.map_id' fields))
    rw [ih m hm]

theorem renamed_eq_self {d : Datum} (h : ∀ k ∈ d.marks, f k = k) : d.renamed f = d :=
  (renamed_congr h).trans (renamed_id d)

/-- The marks in a datum are those of operations before a number. -/
def Before (n : Nat) (d : Datum) : Prop := ∀ k ∈ d.marks, k < n

instance (n : Nat) (d : Datum) : Decidable (d.Before n) :=
  inferInstanceAs (Decidable (∀ k ∈ d.marks, k < n))

theorem Before.mono {d : Datum} {n' : Nat} (h : d.Before n) (le : n ≤ n') : d.Before n' :=
  fun k hk => Nat.lt_of_lt_of_le (h k hk) le

theorem Before.renamed {d : Datum} (h : d.Before n) (keeps : ∀ k, k < n → f k = k) :
    d.renamed f = d :=
  renamed_eq_self fun k hk => keeps k (h k hk)

/-- A datum that no renaming of later marks changes has only earlier ones. -/
theorem before_of_renamed {d : Datum}
    (h : ∀ f : Nat → Nat, f.Injective → (∀ k, k < n → f k = k) → d.renamed f = d) : d.Before n := by
  intro k hk
  rcases Nat.lt_or_ge k n with early | late
  · exact early
  · have swapped := h (Equiv.swap k (k + 1)) (Equiv.injective _)
      (fun j hj => Equiv.swap_apply_of_ne_of_ne (by omega) (by omega))
    have same : d.marks.map (Equiv.swap k (k + 1)) = d.marks := by rw [← marks_renamed, swapped]
    have moved : Equiv.swap k (k + 1) k = k :=
      List.map_inj_left.mp (same.trans (List.map_id' _).symm) k hk
    rw [Equiv.swap_apply_left] at moved
    omega

end Datum

end Covenant
