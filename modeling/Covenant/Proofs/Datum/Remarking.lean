import Covenant.Datum.Access
import Covenant.Proofs.Except
import Covenant.Proofs.Lists
/-!
Other marks on results that are no numbers. A mark tells such a result apart from others and nothing more,
so what is computed from data with other marks is the same with other marks.

* `Datum.remarked`: data with the marks of their parts replaced;
* `Datum.same_remarked`, `Datum.order_remarked`, `Datum.arith_remarked`, `Datum.element_remarked` and
  others: each operation on data agrees with a replacement that keeps different marks apart.
-/

namespace Covenant

def Double.remarked (f : Origin → Origin) : Double → Double
  | .nan o => .nan (f o)
  | .number negative r => .number negative r

namespace Datum

mutual
def remarked (f : Origin → Origin) : Datum → Datum
  | .float x => .float (x.remarked f)
  | .list items => .list (remarkedItems f items)
  | .record fields => .record (remarkedFields f fields)
  | .null => .null
  | .boolean b => .boolean b
  | .integer i => .integer i
  | .text s => .text s
  | .bytes b => .bytes b
  | .key k => .key k

def remarkedItems (f : Origin → Origin) : List Datum → List Datum
  | [] => []
  | d :: rest => d.remarked f :: remarkedItems f rest

def remarkedFields (f : Origin → Origin) : List (String × Datum) → List (String × Datum)
  | [] => []
  | (name, d) :: rest => (name, d.remarked f) :: remarkedFields f rest
end

mutual
/-- Data are made of atoms, lists and records. -/
theorem byParts {P : Datum → Prop} (atom : ∀ d, d.isAtom = true → P d)
    (list : ∀ items, (∀ d ∈ items, P d) → P (.list items))
    (record : ∀ fields, (∀ m ∈ fields, P m.2) → P (.record fields)) : ∀ d, P d
  | .list items => list items (byItems atom list record items)
  | .record fields => record fields (byFields atom list record fields)
  | .null => atom .null rfl
  | .boolean b => atom (.boolean b) rfl
  | .integer i => atom (.integer i) rfl
  | .float x => atom (.float x) rfl
  | .text s => atom (.text s) rfl
  | .bytes b => atom (.bytes b) rfl
  | .key k => atom (.key k) rfl

theorem byItems {P : Datum → Prop} (atom : ∀ d, d.isAtom = true → P d)
    (list : ∀ items, (∀ d ∈ items, P d) → P (.list items))
    (record : ∀ fields, (∀ m ∈ fields, P m.2) → P (.record fields)) :
    ∀ (items : List Datum), ∀ d ∈ items, P d
  | [], _, h => nomatch h
  | first :: rest, d, h => (List.mem_cons.mp h).elim (fun same => same ▸ byParts atom list record first)
      (byItems atom list record rest d)

theorem byFields {P : Datum → Prop} (atom : ∀ d, d.isAtom = true → P d)
    (list : ∀ items, (∀ d ∈ items, P d) → P (.list items))
    (record : ∀ fields, (∀ m ∈ fields, P m.2) → P (.record fields)) :
    ∀ (fields : List (String × Datum)), ∀ m ∈ fields, P m.2
  | [], _, h => nomatch h
  | (_, first) :: rest, m, h =>
    (List.mem_cons.mp h).elim (fun same => same ▸ byParts atom list record first)
      (byFields atom list record rest m)
end

variable {f : Origin → Origin}

theorem remarkedItems_eq_map (items : List Datum) : remarkedItems f items = items.map (remarked f) := by
  induction items with
  | nil => rfl
  | cons d rest ih => rw [remarkedItems, ih, List.map_cons]

theorem remarkedFields_eq_map (fields : Fields) :
    remarkedFields f fields = fields.map fun m => (m.1, m.2.remarked f) := by
  induction fields with
  | nil => rfl
  | cons m rest ih => rw [remarkedFields, ih, List.map_cons]

@[simp] theorem remarked_list (items : List Datum) :
    (list items).remarked f = .list (items.map (remarked f)) := by
  rw [remarked, remarkedItems_eq_map]

@[simp] theorem remarked_record (fields : Fields) :
    (record fields).remarked f = .record (fields.map fun m => (m.1, m.2.remarked f)) := by
  rw [remarked, remarkedFields_eq_map]

end Datum

def Failure.remarked (f : Origin → Origin) : Failure → Failure
  | .outOfBounds index length => .outOfBounds (index.remarked f) length
  | failure => failure

def Datum.remarkedAnswer (f : Origin → Origin) : Except Failure Datum → Except Failure Datum
  | .ok d => .ok (d.remarked f)
  | .error failure => .error (failure.remarked f)

/-! ## Doubles -/

namespace Double

variable {f : Origin → Origin} {o : Origin}

@[simp] theorem remarked_nan : (nan o).remarked f = .nan (f o) := rfl

@[simp] theorem remarked_number (negative : Bool) (r : Fin 0x7ff0000000000001) :
    (number negative r).remarked f = .number negative r := rfl

@[simp] theorem isNan_remarked (x : Double) : (x.remarked f).isNan = x.isNan := by cases x <;> rfl

@[simp] theorem isInfinite_remarked (x : Double) : (x.remarked f).isInfinite = x.isInfinite := by
  cases x <;> rfl

@[simp] theorem isNegative_remarked (x : Double) : (x.remarked f).isNegative = x.isNegative := by
  cases x <;> rfl

@[simp] theorem magnitude_remarked (x : Double) : (x.remarked f).magnitude = x.magnitude := by
  cases x <;> rfl

@[simp] theorem eq_remarked (x y : Double) : (x.remarked f).eq (y.remarked f) = x.eq y := by
  cases x <;> cases y <;> rfl

@[simp] theorem lt_remarked (x y : Double) : (x.remarked f).lt (y.remarked f) = x.lt y := by
  cases x <;> cases y <;> rfl

@[simp] theorem compareInt_remarked (x : Double) (i : Int) :
    (x.remarked f).compareInt i = x.compareInt i := by
  cases x <;> rfl

theorem roundSingle_remarked (x : Double) :
    (x.remarked f).roundSingle (f o) = (x.roundSingle o).remarked f := by
  cases x with
  | nan => rfl
  | number negative r =>
    simp only [remarked_number, roundSingle]
    split <;> rfl

theorem neg_remarked (x : Double) : (x.remarked f).neg (f o) = (x.neg o).remarked f := by
  cases x <;> rfl

@[simp] theorem exactSum_remarked (x y : Double) :
    exactSum (x.remarked f) (y.remarked f) = exactSum x y := by
  cases x <;> cases y <;> rfl

theorem add_remarked (x y : Double) :
    add (f o) (x.remarked f) (y.remarked f) = (add o x y).remarked f := by
  unfold add
  simp only [isNan_remarked, isInfinite_remarked, isNegative_remarked, exactSum_remarked]
  obtain ⟨s, e⟩ := exactSum x y
  dsimp only
  split_ifs <;> rfl

theorem sub_remarked (x y : Double) :
    sub (f o) (x.remarked f) (y.remarked f) = (sub o x y).remarked f := by
  rw [sub, sub, neg_remarked, add_remarked]

theorem mul_remarked (x y : Double) :
    mul (f o) (x.remarked f) (y.remarked f) = (mul o x y).remarked f := by
  unfold mul
  simp only [isNan_remarked, isInfinite_remarked, isNegative_remarked, magnitude_remarked]
  split_ifs <;> rfl

theorem div_remarked (x y : Double) :
    div (f o) (x.remarked f) (y.remarked f) = (div o x y).remarked f := by
  unfold div
  simp only [isNan_remarked, isInfinite_remarked, isNegative_remarked, magnitude_remarked]
  split_ifs <;> rfl

theorem rem_remarked (x y : Double) :
    rem (f o) (x.remarked f) (y.remarked f) = (rem o x y).map (remarked f) := by
  unfold rem
  simp only [isNan_remarked, isInfinite_remarked, isNegative_remarked, magnitude_remarked]
  split_ifs <;> rfl

end Double

/-! ## Numbers -/

namespace Datum

namespace Number

def remarked (f : Origin → Origin) : Number → Number
  | .whole i => .whole i
  | .double x => .double (x.remarked f)

variable {f : Origin → Origin} {o : Origin}

@[simp] theorem toDatum_remarked (a : Number) : (a.remarked f).toDatum = a.toDatum.remarked f := by
  cases a <;> rfl

@[simp] theorem toDouble_remarked (a : Number) :
    (a.remarked f).toDouble = (Double.remarked f) <$> a.toDouble := by
  cases a with
  | whole i =>
    simp only [remarked, toDouble]
    split <;> rfl
  | double x => rfl

@[simp] theorem compare_remarked (a b : Number) : (a.remarked f).compare (b.remarked f) = a.compare b := by
  cases a <;> cases b <;> simp [remarked, compare]

@[simp] theorem compare_whole_remarked (i : Int) (b : Number) :
    (whole i).compare (b.remarked f) = (whole i).compare b :=
  compare_remarked (f := f) (.whole i) b

@[simp] theorem compare_remarked_whole (a : Number) (i : Int) :
    (a.remarked f).compare (.whole i) = a.compare (.whole i) :=
  compare_remarked (f := f) a (.whole i)

@[simp] theorem eq_remarked (a b : Number) : (a.remarked f).eq (b.remarked f) = a.eq b := by
  rw [eq, compare_remarked, eq]

@[simp] theorem nonNegative_remarked (a : Number) : (a.remarked f).nonNegative = a.nonNegative := by
  rw [nonNegative, compare_remarked_whole, nonNegative]

theorem neg_remarked (a : Number) : (a.remarked f).neg (f o) = (a.neg o).remarked f := by
  cases a with
  | whole i => rfl
  | double x => exact congrArg Number.double (Double.neg_remarked x)

theorem abs_remarked (a : Number) : (a.remarked f).abs = a.abs.remarked f := by
  cases a with
  | whole i => rfl
  | double x =>
    cases x with
    | nan => rfl
    | number negative r => cases negative <;> rfl

/-- What is made of two numbers as doubles. -/
theorem doubles_remarked {g g' : Double → Double → Double}
    (same : ∀ x y, g' (x.remarked f) (y.remarked f) = (g x y).remarked f) (a b : Number) : (do
      let x ← (a.remarked f).toDouble
      let y ← (b.remarked f).toDouble
      .ok (.double (g' x y)) : Except Misuse Number) = remarked f <$> (do
      let x ← a.toDouble
      let y ← b.toDouble
      .ok (.double (g x y))) := by
  rw [toDouble_remarked, toDouble_remarked]
  refine map_bind_eq fun x => map_bind_eq fun y => ?_
  exact congrArg (fun z => Except.ok (Number.double z)) (same x y)

theorem combine_remarked {h : Int → Int → Int} {g g' : Double → Double → Double}
    (same : ∀ x y, g' (x.remarked f) (y.remarked f) = (g x y).remarked f) (a b : Number) :
    combine h g' (a.remarked f) (b.remarked f) = remarked f <$> combine h g a b := by
  cases a with
  | whole i =>
    cases b with
    | whole j => rfl
    | double y => exact doubles_remarked same (.whole i) (.double y)
  | double x => cases b <;> exact doubles_remarked same (.double x) _

theorem floorDouble_remarked (x y : Double) :
    floorDouble (f o) (x.remarked f) (y.remarked f) = (floorDouble o x y).remarked f := by
  unfold floorDouble
  simp only [Double.isNan_remarked, Double.rem_remarked]
  cases x.isNan || y.isNan with
  | true => rfl
  | false =>
    cases x.rem o y with
    | none => rfl
    | some rest =>
      simp only [Option.map_some, Double.sub_remarked, Double.div_remarked, Double.isInfinite_remarked]
      cases (Double.div o (Double.sub o x rest) y).isInfinite with
      | true => rfl
      | false =>
        simp only [nearestWhole, Double.magnitude_remarked]
        rfl

theorem truncatedQuotient_remarked (a b : Number) :
    truncatedQuotient (f o) (a.remarked f) (b.remarked f) =
      remarked f <$> truncatedQuotient o a b := by
  unfold truncatedQuotient
  rw [abs_remarked, abs_remarked, combine_remarked (fun x y => floorDouble_remarked x y),
    nonNegative_remarked, nonNegative_remarked]
  refine map_bind_eq fun q => ?_
  cases a.nonNegative == b.nonNegative with
  | true => rfl
  | false => exact congrArg Except.ok (neg_remarked q)

theorem quotient_remarked (a b : Number) :
    quotient (f o) (a.remarked f) (b.remarked f) = remarked f <$> quotient o a b := by
  cases a with
  | whole i =>
    cases b with
    | whole j =>
      simp only [remarked, quotient]
      split <;> rfl
    | double y => exact doubles_remarked Double.div_remarked (.whole i) (.double y)
  | double x => cases b <;> exact doubles_remarked Double.div_remarked (.double x) _

end Number

variable {f : Origin → Origin} {o : Origin}

@[simp] theorem number?_remarked (d : Datum) : (d.remarked f).number? = d.number?.map (Number.remarked f) := by
  cases d with
  | list items => simp [number?]
  | record fields => simp [number?]
  | _ => rfl

theorem asNumber_remarked (d : Datum) : (d.remarked f).asNumber = Number.remarked f <$> d.asNumber := by
  rw [asNumber, number?_remarked, asNumber]
  cases d.number? <;> rfl

/-! ## Equality and order -/

theorem beq_remarked (inj : f.Injective) (a b : Origin) : (f a == f b) = (a == b) := by
  rw [Bool.eq_iff_iff, beq_iff_eq, beq_iff_eq, inj.eq_iff]

theorem sameOrigin_remarked (inj : f.Injective) (x y : Double) :
    sameOrigin (x.remarked f) (y.remarked f) = sameOrigin x y := by
  cases x with
  | nan o => cases y with
    | nan o' => exact beq_remarked inj o o'
    | number => rfl
  | number => rfl

@[simp] theorem lookup_remarked (name : String) (fields : Fields) :
    (fields.map fun m => (m.1, m.2.remarked f)).lookup name = (fields.lookup name).map (remarked f) :=
  lookup_map (fun m => m.2.remarked f) fields name

theorem sameNumber_remarked (a : Number) (b : Option Number) :
    sameNumber (a.remarked f) (b.map (Number.remarked f)) = sameNumber a b := by
  cases b with
  | none => rfl
  | some b => exact Number.eq_remarked a b

/-- Remarking that keeps different marks apart keeps data the same or not the same. -/
theorem same_remarked (inj : f.Injective) (a b : Datum) : same (a.remarked f) (b.remarked f) = same a b := by
  induction a using byParts generalizing b with
  | atom a plain =>
    cases a with
    | list | record => cases plain
    | boolean x =>
      rw [remarked, same, same, number?_remarked]
      exact sameNumber_remarked (.whole _) _
    | integer i =>
      rw [remarked, same, same, number?_remarked]
      exact sameNumber_remarked (.whole i) _
    | float x =>
      cases b with
      | float y =>
        exact congrArg₂ or (sameNumber_remarked (.double x) (some (.double y)))
          (sameOrigin_remarked inj x y)
      | boolean y =>
        exact congrArg (· || false) (sameNumber_remarked (.double x) (some (.whole _)))
      | integer i =>
        exact congrArg (· || false) (sameNumber_remarked (.double x) (some (.whole i)))
      | list items => rw [remarked_list]; rfl
      | record fields => rw [remarked_record]; rfl
      | _ => rfl
    | null | text | bytes | key =>
      cases b with
      | list items => rw [remarked_list]; rfl
      | record fields => rw [remarked_record]; rfl
      | _ => rfl
  | list items ih =>
    rw [remarked_list]
    cases b with
    | list others =>
      rw [remarked_list, same, same]
      induction items generalizing others with
      | nil => cases others <;> rfl
      | cons d rest ihs =>
        rw [List.forall_mem_cons] at ih
        cases others with
        | nil => rfl
        | cons e others =>
          rw [List.map_cons, List.map_cons, sameItems, sameItems, ih.1, ihs ih.2]
    | record fields => rw [remarked_record]; rfl
    | _ => rfl
  | record fields ih =>
    rw [remarked_record]
    cases b with
    | list items => rw [remarked_list]; rfl
    | record others =>
      rw [remarked_record, same, same, List.length_map, List.length_map]
      congr 1
      induction fields with
      | nil => rfl
      | cons m rest ihs =>
        rw [List.forall_mem_cons] at ih
        rw [List.map_cons, sameFields, sameFields, lookup_remarked, ihs ih.2]
        cases others.lookup m.1 with
        | none => rfl
        | some e => exact congrArg (· && _) (ih.1 e)
    | _ => rfl

theorem eq_remarked (inj : f.Injective) (a b : Datum) : (a.remarked f).eq (b.remarked f) = a.eq b := by
  have others : ∀ a b : Datum, (∀ x y, ¬ (a = .float x ∧ b = .float y)) → a.eq b = a.same b := by
    intro a b h
    unfold eq
    split
    next x y => exact absurd ⟨rfl, rfl⟩ (h x y)
    next => rfl
  by_cases both : ∃ x y, a = .float x ∧ b = .float y
  · obtain ⟨x, y, rfl, rfl⟩ := both
    exact Double.eq_remarked x y
  · have apart : ∀ x y, ¬ (a = .float x ∧ b = .float y) := fun x y h => both ⟨x, y, h⟩
    rw [others a b apart, others, same_remarked inj]
    rintro x y ⟨hx, hy⟩
    cases a with
    | float x' => cases b with
      | float y' => exact apart x' y' ⟨rfl, rfl⟩
      | list | record => simp at hy
      | _ => cases hy
    | list | record => simp at hx
    | _ => cases hx

theorem order_remarked (inj : f.Injective) (o : Order) (a b : Datum) :
    (a.remarked f).order o (b.remarked f) = a.order o b := by
  induction a using byParts generalizing b with
  | atom a plain =>
    cases a with
    | list | record => cases plain
    | _ => cases b <;> simp [order, remarked, number?, Number.compare]
  | list items ih =>
    rw [remarked_list]
    cases b with
    | list others =>
      rw [remarked_list, order, order]
      induction items generalizing others with
      | nil => cases others <;> rfl
      | cons d rest ihs =>
        rw [List.forall_mem_cons] at ih
        cases others with
        | nil => rfl
        | cons e others =>
          rw [List.map_cons, List.map_cons, order.orderItems, order.orderItems, same_remarked inj,
            ih.1, ihs ih.2]
    | _ => simp [order, remarked, number?]
  | record fields ih =>
    rw [remarked_record]
    cases b <;> simp [order, remarked, number?]

/-! ## Arithmetic -/

theorem result_remarked {r r' : Except Misuse Number} (same : r' = Number.remarked f <$> r) :
    (do return (← r').toDatum : Except Misuse Datum) = remarked f <$> (do return (← r).toDatum) := by
  subst same
  exact map_bind_eq fun n => congrArg Except.ok (Number.toDatum_remarked n)

/-- What is computed from two numbers. -/
theorem numbers_remarked {g g' : Number → Number → Except Misuse Number}
    (same : ∀ x y, g' (x.remarked f) (y.remarked f) = Number.remarked f <$> g x y) (a b : Datum) : (do
      let x ← (a.remarked f).asNumber
      let y ← (b.remarked f).asNumber
      return (← g' x y).toDatum : Except Misuse Datum) = remarked f <$> (do
      let x ← a.asNumber
      let y ← b.asNumber
      return (← g x y).toDatum) := by
  rw [asNumber_remarked, asNumber_remarked]
  exact map_bind_eq fun x => map_bind_eq fun y => result_remarked (same x y)

theorem plus_remarked (a b : Datum) :
    (a.remarked f).plus (f o) (b.remarked f) = remarked f <$> a.plus o b := by
  cases a <;> cases b <;> first
    | exact numbers_remarked (Number.combine_remarked Double.add_remarked) _ _
    | rfl
    | simp [plus]

theorem minus_remarked (a b : Datum) :
    (a.remarked f).minus (f o) (b.remarked f) = remarked f <$> a.minus o b :=
  numbers_remarked (Number.combine_remarked Double.sub_remarked) a b

theorem map_repeated {α β : Type} (g : α → β) (n : Int) (parts : List α) :
    (repeated n parts).map g = repeated n (parts.map g) := by
  simp [repeated, List.map_flatten]

theorem times_of_numbers {a b : Datum} {x y : Number} (ha : a.number? = some x)
    (hb : b.number? = some y) :
    times o a b = do return (← Number.combine (· * ·) (Double.mul o) x y).toDatum := by
  simp [times, ha, hb]

theorem times_remarked (a b : Datum) :
    (a.remarked f).times (f o) (b.remarked f) = remarked f <$> a.times o b := by
  cases ha : a.number? with
  | some x =>
    cases hb : b.number? with
    | some y =>
      have ha' : (a.remarked f).number? = some (x.remarked f) := by rw [number?_remarked, ha]; rfl
      have hb' : (b.remarked f).number? = some (y.remarked f) := by rw [number?_remarked, hb]; rfl
      rw [times_of_numbers ha hb, times_of_numbers ha' hb']
      exact result_remarked (Number.combine_remarked Double.mul_remarked x y)
    | none =>
      cases a <;> cases ha <;> cases b <;> cases hb <;>
        simp [times, remarked, number?, map_repeated, remarkedItems_eq_map]
  | none =>
    cases a <;> cases ha <;> cases b <;>
      simp [times, remarked, number?, map_repeated, remarkedItems_eq_map]

theorem negated_remarked (a : Datum) :
    (a.remarked f).negated (f o) = remarked f <$> a.negated o := by
  rw [negated, asNumber_remarked, negated]
  refine map_bind_eq fun x => ?_
  rw [Number.neg_remarked, Number.toDatum_remarked]
  rfl

theorem single_remarked (a : Datum) :
    (a.remarked f).single (f o) = remarked f <$> a.single o := by
  have whole : ∀ i : Int, (do
      let x := Double.ofInt i
      if x.isInfinite || x.singleBits == none then .error .width
      else .ok (.float (x.roundSingle (f o))) : Except Misuse Datum) = remarked f <$> (do
      let x := Double.ofInt i
      if x.isInfinite || x.singleBits == none then .error .width
      else .ok (.float (x.roundSingle o))) := by
    intro i
    dsimp only
    split
    · rfl
    · exact congrArg (fun x => Except.ok (Datum.float x)) (Double.roundSingle_remarked (.ofInt i))
  cases a with
  | float x => exact congrArg (fun x => Except.ok (Datum.float x)) (Double.roundSingle_remarked x)
  | boolean b => exact whole _
  | integer i => exact whole i
  | list items => rw [remarked_list]; rfl
  | record fields => rw [remarked_record]; rfl
  | _ => rfl

theorem remainder_remarked (x y : Double) :
    (match (x.remarked f).rem (f o) (y.remarked f) with
      | some r => return .float r
      | none => .error .domain : Except Misuse Datum) = remarked f <$> (match x.rem o y with
      | some r => return .float r
      | none => .error .domain : Except Misuse Datum) := by
  rw [Double.rem_remarked]
  cases x.rem o y <;> rfl

theorem raw_remarked (op : Arith) (isFloat : Bool) (a b : Datum) :
    raw (f o) op isFloat (a.remarked f) (b.remarked f) = remarked f <$> raw o op isFloat a b := by
  cases op with
  | add => exact plus_remarked a b
  | sub => exact minus_remarked a b
  | mul => exact times_remarked a b
  | div =>
    cases isFloat with
    | true => exact numbers_remarked Number.quotient_remarked a b
    | false => exact numbers_remarked Number.truncatedQuotient_remarked a b
  | mod =>
    simp only [raw]
    rw [asNumber_remarked, asNumber_remarked]
    refine map_bind_eq fun x => map_bind_eq fun y => ?_
    cases isFloat with
    | true =>
      rw [if_pos rfl, if_pos rfl, Number.toDouble_remarked, Number.toDouble_remarked]
      exact map_bind_eq fun x => map_bind_eq fun y => remainder_remarked x y
    | false =>
      rw [if_neg Bool.false_ne_true, if_neg Bool.false_ne_true, Number.truncatedQuotient_remarked]
      refine map_bind_eq fun q => ?_
      rw [Number.combine_remarked Double.mul_remarked]
      exact map_bind_eq fun p => result_remarked (Number.combine_remarked Double.sub_remarked x p)
  | neg => exact negated_remarked a
  | other name => exact negated_remarked a

theorem within_remarked (low high : Int) (n : Number) :
    within low high (n.remarked f) = within low high n := by
  rw [within, Number.compare_whole_remarked, Number.compare_remarked_whole, within]

theorem lift_map {α β : Type} (g : α → β) (r : Except Misuse α) :
    Failure.lift (g <$> r) = g <$> Failure.lift r := by
  cases r <;> rfl

theorem arith_remarked (inj : f.Injective) (op : Arith) (p : Primitive) (a b : Datum) :
    (a.remarked f).arith (f o) op p (b.remarked f) = remarked f <$> a.arith o op p b := by
  have zero : (b.remarked f).eq (.integer 0) = b.eq (.integer 0) := eq_remarked inj b (.integer 0)
  unfold arith
  rw [zero, raw_remarked, lift_map]
  split
  · rfl
  · refine map_bind_eq fun r => ?_
    split
    · rfl
    · split
      · rw [single_remarked, lift_map]
      · cases p.range? with
        | none => rfl
        | some bounds =>
          obtain ⟨low, high⟩ := bounds
          dsimp only
          rw [asNumber_remarked, lift_map]
          refine map_bind_eq fun n => ?_
          rw [within_remarked]
          cases within low high n <;> rfl

/-- The failures of arithmetic have no marks. -/
theorem remarked_of_arith {op : Arith} {p : Primitive} {a b : Datum} {failure : Failure}
    (h : a.arith o op p b = .error failure) : failure.remarked f = failure := by
  have misuse : ∀ {r : Except Misuse Datum}, Failure.lift r = .error failure →
      failure.remarked f = failure := by
    intro r h
    cases r with
    | ok d => cases h
    | error why =>
      cases h
      rfl
  unfold arith at h
  split at h
  · cases h
    rfl
  · cases made : raw o op p.isFloat a b with
    | error why =>
      rw [made] at h
      cases h
      rfl
    | ok r =>
      rw [made, Failure.lift, ok_bind] at h
      split at h
      · cases h
      · split at h
        · exact misuse h
        · split at h
          · cases h
            rfl
          · cases number : r.asNumber with
            | error why =>
              rw [number] at h
              cases h
              rfl
            | ok n =>
              rw [number, Failure.lift, ok_bind] at h
              split at h
              · cases h
              · cases h
                rfl

/-! ## Parts -/

@[simp] theorem isTrue_remarked (d : Datum) : (d.remarked f).isTrue = d.isTrue := by
  cases d with
  | float x => exact congrArg (!·) (Double.eq_remarked x (.zero false))
  | list items => cases items <;> simp [isTrue]
  | record fields => cases fields <;> simp [isTrue]
  | _ => rfl

@[simp] theorem holds_remarked (d : Datum) : (d.remarked f).holds = d.holds := by
  cases d with
  | key k => rfl
  | list items => exact isTrue_remarked (.list items)
  | record fields => exact isTrue_remarked (.record fields)
  | float x => exact isTrue_remarked (.float x)
  | _ => rfl

theorem size_remarked (d : Datum) : (d.remarked f).size = d.size := by
  cases d <;> simp [size, remarked, remarkedItems_eq_map, remarkedFields_eq_map]

theorem parts_remarked (d : Datum) : (d.remarked f).parts = List.map (remarked f) <$> d.parts := by
  have plain : ∀ {α : Type} (g : α → Datum) (l : List α), (∀ a, (g a).remarked f = g a) →
      Except.ok (ε := Misuse) (l.map g) = List.map (remarked f) <$> Except.ok (l.map g) := by
    intro α g l same
    refine congrArg Except.ok ?_
    rw [List.map_map]
    exact List.map_congr_left fun a _ => (same a).symm
  cases d with
  | list items => rw [remarked_list]; rfl
  | text s => exact plain _ _ fun _ => rfl
  | bytes b => exact plain _ _ fun _ => rfl
  | record fields =>
    rw [remarked_record, parts, parts, List.map_map]
    exact plain _ _ fun _ => rfl
  | _ => rfl

theorem member_remarked (name : String) (d : Datum) :
    (d.remarked f).member name = remarked f <$> d.member name := by
  cases d with
  | record fields =>
    rw [remarked_record, member, member, lookup_remarked]
    cases fields.lookup name <;> rfl
  | list items => rw [remarked_list]; rfl
  | _ => rfl

theorem setField_remarked (name : String) (value : Datum) (fields : Fields) :
    setField name (value.remarked f) (fields.map fun m => (m.1, m.2.remarked f)) =
      (setField name value fields).map fun m => (m.1, m.2.remarked f) := by
  induction fields with
  | nil => rfl
  | cons m rest ih =>
    rw [List.map_cons, setField, setField, ih]
    split <;> rfl

theorem ofMembers_remarked (members : Fields) :
    ofMembers (members.map fun m => (m.1, m.2.remarked f)) =
      (ofMembers members).map fun m => (m.1, m.2.remarked f) := by
  have added : ∀ (members fields : Fields),
      (members.map fun m => (m.1, m.2.remarked f)).foldl (fun fields m => setField m.1 m.2 fields)
        (fields.map fun m => (m.1, m.2.remarked f)) =
      (members.foldl (fun fields m => setField m.1 m.2 fields) fields).map
        fun m => (m.1, m.2.remarked f) := by
    intro members
    induction members with
    | nil => exact fun _ => rfl
    | cons m rest ih =>
      intro fields
      rw [List.map_cons, List.foldl_cons, List.foldl_cons, setField_remarked, ih]
  exact added members []

theorem pair_remarked (d : Datum) :
    (d.remarked f).pair = (fun m => (m.1, m.2.remarked f)) <$> d.pair := by
  unfold pair
  rw [parts_remarked]
  cases d.parts with
  | error why => rfl
  | ok parts =>
    cases parts with
    | nil => rfl
    | cons first rest =>
      cases rest with
      | nil => cases first <;> rfl
      | cons second others =>
        cases others with
        | nil => cases first <;> rfl
        | cons => cases first <;> rfl

theorem mapM_pair_remarked (parts : List Datum) :
    (parts.map (remarked f)).mapM pair =
      (List.map fun m => (m.1, m.2.remarked f)) <$> parts.mapM pair := by
  induction parts with
  | nil => rfl
  | cons d rest ih =>
    rw [List.map_cons, List.mapM_cons, List.mapM_cons, pair_remarked, ih]
    exact map_bind_eq fun m => map_bind_eq fun members => rfl

theorem toFields_remarked (d : Datum) :
    (d.remarked f).toFields = (List.map fun m => (m.1, m.2.remarked f)) <$> d.toFields := by
  have members : ∀ d : Datum, (do
      let parts ← (d.remarked f).parts
      return ofMembers (← parts.mapM pair) : Except Misuse Fields) =
      (List.map fun m => (m.1, m.2.remarked f)) <$> (do
      let parts ← d.parts
      return ofMembers (← parts.mapM pair)) := by
    intro d
    rw [parts_remarked]
    refine map_bind_eq fun parts => ?_
    rw [mapM_pair_remarked]
    exact map_bind_eq fun found => congrArg Except.ok (ofMembers_remarked found)
  cases d with
  | record fields => rw [remarked_record]; rfl
  | list items =>
    have same := members (.list items)
    rw [remarked_list] at same ⊢
    exact same
  | _ => exact members _

theorem withMember_remarked (d : Datum) (name : String) (value : Datum) :
    (d.remarked f).withMember name (value.remarked f) = remarked f <$> d.withMember name value := by
  rw [withMember, toFields_remarked, withMember]
  refine map_bind_eq fun fields => ?_
  rw [setField_remarked]
  exact congrArg Except.ok (remarked_record _).symm

theorem appended_remarked (d value : Datum) :
    (d.remarked f).appended (value.remarked f) = remarked f <$> d.appended value := by
  rw [appended, parts_remarked, appended]
  refine map_bind_eq fun parts => congrArg Except.ok ?_
  rw [remarked_list, List.map_append, List.map_singleton]

theorem indexOf_remarked (inj : f.Injective) (d target : Datum) :
    (d.remarked f).indexOf (target.remarked f) = remarked f <$> d.indexOf target := by
  rw [indexOf, parts_remarked, indexOf]
  refine map_bind_eq fun parts => ?_
  have found : (parts.map (remarked f)).findIdx? (fun part => part.eq (target.remarked f)) =
      parts.findIdx? fun part => part.eq target := by
    rw [List.findIdx?_map]
    exact congrArg (fun p => parts.findIdx? p) (funext fun part => eq_remarked inj part target)
  rw [found]
  cases parts.findIdx? fun part => part.eq target <;> rfl

theorem includes_remarked (inj : f.Injective) (d target : Datum) :
    (d.remarked f).includes (target.remarked f) = d.includes target := by
  cases d with
  | list items =>
    rw [remarked_list, includes, includes, List.any_map]
    exact congrArg (fun p => Except.ok (items.any p)) (funext fun item => same_remarked inj item target)
  | record fields =>
    rw [remarked_record]
    cases target <;> simp [includes, remarked, isAtom, Function.comp_def]
  | _ => cases target <;> simp [includes, remarked, number?]

/-! ## Answers -/

theorem remarkedAnswer_map (r : Except Failure Datum) (h : ∀ failure, r = .error failure →
    failure.remarked f = failure) : remarkedAnswer f r = remarked f <$> r := by
  cases r with
  | ok d => rfl
  | error failure => exact congrArg Except.error (h failure rfl)

theorem remarkedAnswer_arith (op : Arith) (p : Primitive) (a b : Datum) :
    remarkedAnswer f (a.arith o op p b) = remarked f <$> a.arith o op p b :=
  remarkedAnswer_map _ fun _ h => remarked_of_arith h

/-- Misuse has no marks. -/
theorem remarkedAnswer_lift (r : Except Misuse Datum) :
    remarkedAnswer f (Failure.lift r) = Failure.lift (remarked f <$> r) := by
  cases r <;> rfl

/-! ## Places in lists -/

theorem checkPlace_remarked (index : Datum) (length : Except Misuse Nat) :
    checkPlace (index.remarked f) length = (checkPlace index length).mapError (Failure.remarked f) := by
  unfold checkPlace
  rw [asNumber_remarked]
  cases index.asNumber with
  | error why => rfl
  | ok i =>
    cases length with
    | error why => rfl
    | ok n =>
      simp only [Functor.map, Except.map, Failure.lift, ok_bind, Number.nonNegative_remarked,
        Number.compare_remarked_whole]
      split <;> split_ifs <;> rfl

theorem place_remarked (index : Datum) : place (index.remarked f) = place index := by
  rw [place, number?_remarked, place]
  cases index.number? with
  | none => rfl
  | some n => cases n <;> rfl

/-- What is a place has no mark. -/
theorem remarked_of_checkPlace {index : Datum} {length : Except Misuse Nat}
    (h : checkPlace index length = .ok ()) : index.remarked f = index := by
  obtain ⟨i, hi, h⟩ := bind_eq_ok.mp h
  obtain ⟨n, -, h⟩ := bind_eq_ok.mp h
  cases index with
  | float x =>
    cases x with
    | nan o =>
      cases hi
      cases h
    | number negative r => rfl
  | list | record => cases hi
  | _ => rfl

theorem checkPlace_of_element {d index e : Datum} (h : d.element index = .ok e) :
    checkPlace index d.size = .ok () := by
  obtain ⟨u, hc, -⟩ := bind_eq_ok.mp h
  exact hc

def partAt (d index : Datum) : Except Failure Datum := do
  let i ← Failure.lift (place index)
  Failure.lift ((← Failure.lift d.parts)[i]?.elim (.error .position) .ok)

theorem element_eq {d : Datum} (other : ∀ fields, d ≠ .record fields) (index : Datum) :
    d.element index = checkPlace index d.size >>= fun _ => d.partAt index := by
  unfold element partAt
  refine bind_congr fun _ => ?_
  cases d with
  | record fields => exact absurd rfl (other fields)
  | _ =>
    refine bind_congr fun i => bind_congr fun parts => ?_
    cases parts[i]? <;> rfl

theorem partAt_remarked (d index : Datum) :
    (d.remarked f).partAt (index.remarked f) = remarkedAnswer f (d.partAt index) := by
  unfold partAt
  rw [place_remarked, parts_remarked]
  cases place index with
  | error why => rfl
  | ok i =>
    cases d.parts with
    | error why => rfl
    | ok parts =>
      simp only [Functor.map, Except.map, Failure.lift, ok_bind, List.getElem?_map]
      cases parts[i]? <;> rfl

theorem element_remarked (d index : Datum) :
    (d.remarked f).element (index.remarked f) = remarkedAnswer f (d.element index) := by
  have record : ∀ fields : Fields, (record fields).element index =
      checkPlace index (record fields).size >>= fun _ => .error (.misuse .member) := fun _ => rfl
  by_cases some : ∃ fields, d = .record fields
  · obtain ⟨fields, rfl⟩ := some
    have same : ((Datum.record fields).remarked f).element (index.remarked f) =
        checkPlace (index.remarked f) ((Datum.record fields).remarked f).size >>=
          fun _ => .error (.misuse .member) := by rw [remarked_record]; rfl
    rw [same, record, size_remarked, checkPlace_remarked]
    cases checkPlace index (Datum.record fields).size <;> rfl
  · have other : ∀ fields, d ≠ .record fields := fun fields h => some ⟨fields, h⟩
    have other' : ∀ fields, d.remarked f ≠ .record fields := by
      intro fields h
      cases d with
      | record all => exact other all rfl
      | list items => simp at h
      | _ => cases h
    rw [element_eq other, element_eq other', size_remarked, checkPlace_remarked]
    cases checkPlace index d.size with
    | error failure => rfl
    | ok u => exact partAt_remarked d index

theorem withElement_remarked (d index value : Datum) :
    (d.remarked f).withElement (index.remarked f) (value.remarked f) =
      remarkedAnswer f (d.withElement index value) := by
  unfold withElement
  rw [parts_remarked]
  cases d.parts with
  | error why => rfl
  | ok parts =>
    simp only [Functor.map, Except.map, Failure.lift, ok_bind, List.length_map, checkPlace_remarked]
    cases checkPlace index (.ok parts.length) with
    | error failure => rfl
    | ok u =>
      simp only [Except.mapError, ok_bind, place_remarked]
      cases place index with
      | error why => rfl
      | ok i =>
        simp only [ok_bind, ← List.map_set, ← remarked_list]
        rfl

end Datum

/-! ## Messages -/

namespace Datum

theorem quoted_remarked (d : Datum) : (d.remarked f).quoted = d.quoted := by
  induction d using byParts with
  | atom d plain =>
    cases d with
    | float x =>
      cases x with
      | nan o => rfl
      | number negative r => rw [remarked, Double.remarked_number]
    | list | record => cases plain
    | _ => rw [remarked]
  | list items ih =>
    have each : quotedItems (items.map (remarked f)) = quotedItems items := by
      induction items with
      | nil => rfl
      | cons d rest ihs =>
        rw [List.forall_mem_cons] at ih
        rw [List.map_cons, quotedItems, quotedItems, ih.1, ihs ih.2]
    rw [remarked_list, quoted, quoted, each]
  | record fields ih =>
    have each : quotedFields (fields.map fun m => (m.1, m.2.remarked f)) = quotedFields fields := by
      induction fields with
      | nil => rfl
      | cons m rest ihs =>
        rw [List.forall_mem_cons] at ih
        rw [List.map_cons, quotedFields, quotedFields, ih.1, ihs ih.2]
    rw [remarked_record, quoted, quoted, each]

/-- Messages do not show marks. -/
theorem shown_remarked (d : Datum) : (d.remarked f).shown = d.shown := by
  cases d with
  | list items =>
    have same := quoted_remarked (f := f) (.list items)
    rw [remarked_list] at same ⊢
    exact same
  | record fields =>
    have same := quoted_remarked (f := f) (.record fields)
    rw [remarked_record] at same ⊢
    exact same
  | float x => exact quoted_remarked (.float x)
  | _ => rw [remarked]

end Datum

theorem Datum.remarked_remarked (f g : Origin → Origin) (d : Datum) :
    (d.remarked f).remarked g = d.remarked fun o => g (f o) := by
  induction d using byParts with
  | atom d plain =>
    cases d with
    | float x => cases x <;> rfl
    | list | record => cases plain
    | _ => rfl
  | list items ih =>
    rw [remarked_list, remarked_list, remarked_list, List.map_map]
    exact congrArg Datum.list (List.map_congr_left ih)
  | record fields ih =>
    rw [remarked_record, remarked_record, remarked_record, List.map_map]
    exact congrArg Datum.record (List.map_congr_left fun m hm => congrArg (Prod.mk m.1) (ih m hm))

end Covenant
