import Covenant.Proofs.Run.Conformance
import Covenant.Proofs.Value.Equality
/-!
Searches in lists.

* `Datum.IsFirst`: the place of the first item that equals a target, or -1;
* `Machine.searches_agree`: the two instructions that search a list find the same items, except for a target
  that is not a number;
* `unequal_item_is_included`: such a target is in a list in which it has no place.
-/

namespace Covenant

namespace Datum

/-- A number is the place of the first item that equals a target, or -1 if there is none. -/
inductive IsFirst (items : List Datum) (target : Datum) : Int → Prop
  | found {i : Nat} {item : Datum} (here : items[i]? = some item) (equal : item.eq target = true)
      (before : ∀ j < i, ∀ other, items[j]? = some other → other.eq target = false) :
      IsFirst items target i
  | missing (none : ∀ item ∈ items, item.eq target = false) : IsFirst items target (-1)

variable {items : List Datum} {target : Datum}

theorem IsFirst.nonneg_iff {k : Int} (h : IsFirst items target k) :
    0 ≤ k ↔ ∃ item ∈ items, item.eq target = true := by
  cases h with
  | found here equal => exact iff_of_true (Int.natCast_nonneg _) ⟨_, List.mem_of_getElem? here, equal⟩
  | missing none =>
    exact iff_of_false (by decide) fun ⟨item, hi, equal⟩ => by simp [none item hi] at equal

theorem exists_indexOf (items : List Datum) (target : Datum) :
    ∃ k, indexOf (.list items) target = .ok (.integer k) ∧ IsFirst items target k := by
  cases found : items.findIdx? fun item => item.eq target with
  | none =>
    refine ⟨-1, ?_, .missing (List.findIdx?_eq_none_iff.mp found)⟩
    rw [indexOf, parts, ok_bind, found]
    rfl
  | some i =>
    obtain ⟨inside, equal, before⟩ := List.findIdx?_eq_some_iff_getElem.mp found
    refine ⟨i, ?_, .found (List.getElem?_eq_getElem inside) equal fun j early other there => ?_⟩
    · rw [indexOf, parts, ok_bind, found]
      rfl
    · obtain ⟨_, rfl⟩ := List.getElem?_eq_some_iff.mp there
      simpa using before j early

/-- A list holds a target if an item equals it, or is it and not a number. -/
theorem any_same_iff : (items.any fun item => item.same target) = true ↔
    (∃ item ∈ items, item.eq target = true) ∨ ∃ origin, target = .float (.nan origin) ∧ target ∈ items := by
  simp only [List.any_eq_true, same_iff_eq_or]
  constructor
  · rintro ⟨item, hi, equal | ⟨origin, rfl, rfl⟩⟩
    · exact .inl ⟨item, hi, equal⟩
    · exact .inr ⟨origin, rfl, hi⟩
  · rintro (⟨item, hi, equal⟩ | ⟨origin, rfl, hi⟩)
    · exact ⟨item, hi, .inl equal⟩
    · exact ⟨_, hi, .inr ⟨origin, rfl, rfl⟩⟩

/-- Data of a type other than the two of floats are none. -/
theorem Conforms.ne_float {r : Leaves} {t : Ty} {d : Datum} (h : Conforms r t d)
    (single : t ≠ .primitive .f32) (double : t ≠ .primitive .f64) (x : Double) : d ≠ .float x := by
  rintro rfl
  cases h with
  | scalar h =>
    cases h with
    | single => exact single rfl
    | double => exact double rfl

end Datum

theorem Ty.Exact.ne_float {t : Ty} (h : t.Exact) : t ≠ .primitive .f32 ∧ t ≠ .primitive .f64 := by
  constructor <;>
    · rintro rfl
      cases h with
      | primitive h => cases h

namespace Machine

/-- One instruction finds the place of the first item of a list that equals a target, as the instruction for
equality has it, and the other one whether there is such an item. They agree whatever the target is, unless it
is not a number: then it has no place, and is held by a list of which it is an item. This happens for items
of a type of floats only; and where no part of their type is a float, what is found is the target itself. -/
theorem searches_agree (s : Surroundings) {m : Machine} {items rest : List Datum} {target : Datum}
    (stack : m.stack = target :: .list items :: rest) :
    ∃ (k : Int) (b : Bool),
      (execute s .arrayIndexOf).run m = (.ok none, { m with stack := .integer k :: rest }) ∧
      (execute s .arrayIncludes).run m = (.ok none, { m with stack := .boolean b :: rest }) ∧
      (∀ item, (execute s (.compare .equal)).run { m with stack := target :: item :: rest } =
        (.ok none, { m with stack := .boolean (item.eq target) :: rest })) ∧
      Datum.IsFirst items target k ∧
      (b = true ↔ 0 ≤ k ∨ ∃ origin, target = .float (.nan origin) ∧ target ∈ items) ∧
      (∀ origin, target = .float (.nan origin) → k = -1) ∧
      ∀ (r : Leaves) (t : Ty), (Datum.list items).Conforms r (.array t) →
        (t ≠ .primitive .f32 → t ≠ .primitive .f64 → (b = true ↔ 0 ≤ k)) ∧
        (t.Exact → target.Conforms r t → ∀ item ∈ items, item.eq target = true ↔ item = target) := by
  obtain ⟨st, l, receiver, p, n, c⟩ := m
  obtain rfl : st = target :: .list items :: rest := stack
  obtain ⟨k, place, first⟩ := Datum.exists_indexOf items target
  have held : (items.any fun item => item.same target) = true ↔
      0 ≤ k ∨ ∃ origin, target = .float (.nan origin) ∧ target ∈ items := by
    rw [first.nonneg_iff, Datum.any_same_iff]
  refine ⟨k, items.any fun item => item.same target, ?_, ?_, fun item => ?_, first, held, ?_, ?_⟩
  · rw [execute_arrayIndexOf, place]
    rfl
  · rw [execute_arrayIncludes]
    rfl
  · rw [execute_compare]
    rfl
  · rintro origin rfl
    cases first with
    | found _ equal => simp [Datum.eq_nan] at equal
    | missing => rfl
  · intro r t conforms
    have each := conforms.items rfl
    refine ⟨fun single double => ?_, fun exact typed item hi => ?_⟩
    · rw [held]
      refine or_iff_left ?_
      rintro ⟨origin, rfl, hi⟩
      exact (each _ hi).ne_float single double _ rfl
    · rw [← Datum.Conforms.same_iff exact (each item hi) typed, Datum.same_iff_eq_or]
      refine (or_iff_left ?_).symm
      rintro ⟨origin, -, rfl⟩
      exact typed.ne_float exact.ne_float.1 exact.ne_float.2 _ rfl

/-- A list whose only item is not a number. -/
def nestedTarget : Datum := .list [.float (.nan .literal)]

def nestedLists : List Datum := [.list [], .list [.float (.zero false)], nestedTarget]

/-- Such a list is found among others, although its item equals nothing. -/
theorem nested_item_is_found : (Datum.list nestedLists).Conforms .free (.array (.array (.primitive .f64))) ∧
    ∃ k : Int, 0 ≤ k ∧
      (execute ⟨none, []⟩ .arrayIndexOf).run ⟨[nestedTarget, .list nestedLists], [], .null, 0, 0, 0⟩ =
        (.ok none, ⟨[.integer k], [], .null, 0, 0, 0⟩) ∧
      (execute ⟨none, []⟩ .arrayIncludes).run ⟨[nestedTarget, .list nestedLists], [], .null, 0, 0, 0⟩ =
        (.ok none, ⟨[.boolean true], [], .null, 0, 0, 0⟩) := by
  have single (x : Double) : (Datum.list [.float x]).Conforms .free (.array (.primitive .f64)) := by
    refine .array fun d hd => ?_
    obtain rfl := List.mem_singleton.mp hd
    exact .scalar (.double x)
  have typed : (Datum.list nestedLists).Conforms .free (.array (.array (.primitive .f64))) := by
    have empty : (Datum.list []).Conforms .free (.array (.primitive .f64)) := .array (List.forall_mem_nil _)
    refine .array (List.forall_mem_cons.mpr ⟨empty, List.forall_mem_cons.mpr ⟨single _, ?_⟩⟩)
    exact List.forall_mem_singleton.mpr (single _)
  obtain ⟨k, b, place, held, -, first, -, -, agree⟩ := searches_agree ⟨none, []⟩
    (m := ⟨[nestedTarget, .list nestedLists], [], .null, 0, 0, 0⟩) rfl
  have equal : nestedTarget.eq nestedTarget = true := by
    change Datum.same nestedTarget nestedTarget = true
    rw [nestedTarget, Datum.same, Datum.sameItems, Datum.same_float]
    rfl
  have nonneg : 0 ≤ k := first.nonneg_iff.mpr ⟨nestedTarget, by simp [nestedLists], equal⟩
  obtain rfl : b = true := ((agree .free _ typed).1 (by simp) (by simp)).mpr nonneg
  exact ⟨typed, k, nonneg, place, held⟩

end Machine

/-! ## A target that is not a number -/

/-- Compares what the two searches say of the only item of a list. -/
def searchedSource : String := "contract R \x7b id: string; @call g(x: f64): boolean \x7b " ++
  "return [x].includes(x) == ([x].indexOf(x) >= 0); \x7d \x7d"

def searchedCall : Call :=
  { Call.empty with
    receiver := .record [("id", .text "")], arguments := .list [.float (.nan (.given 0))] }

def Output.isFalse (output : Output) : Bool :=
  match output.result with
  | some (.scalar .boolean (.boolean false)) => true
  | _ => false

/-- The searches disagree when the item is not a number. -/
theorem unequal_item_is_included : ∃ program c code inputs output,
    Program.read searchedSource = .ok program ∧ program.compile "R" "g" = .ok c ∧
    c.code.link c.abi c.header = .ok code ∧ Inputs.ofCall c.abi searchedCall = .ok inputs ∧
    LinkedFunction.run ⟨c.abi, c.header, code, ""⟩ inputs 100 = .ok output ∧
    output.result = some (.scalar .boolean (.boolean false)) := by
  have runs : (do
      let program ← (Program.read searchedSource).toOption
      let c ← (program.compile "R" "g").toOption
      let code ← (c.code.link c.abi c.header).toOption
      let inputs ← (Inputs.ofCall c.abi searchedCall).toOption
      let output ← (LinkedFunction.run ⟨c.abi, c.header, code, ""⟩ inputs 100).toOption
      return output.isFalse) = some true := by decide +kernel
  simp only [Option.bind_eq_bind, Option.bind_eq_some_iff, toOption_eq_some, Option.pure_def,
    Option.some.injEq] at runs
  obtain ⟨program, hp, c, hc, code, linked, inputs, accepted, output, ran, result⟩ := runs
  refine ⟨program, c, code, inputs, output, hp, hc, linked, accepted, ran, ?_⟩
  unfold Output.isFalse at result
  split at result
  next known => exact known
  next => cases result

end Covenant
