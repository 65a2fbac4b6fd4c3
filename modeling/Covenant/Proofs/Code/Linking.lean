import Covenant.Code.Emission
import Covenant.Code.Linking
import Covenant.Proofs.Lists
import Mathlib.Data.List.Nodup
/-!
What linking makes of code, piece by piece:

* `Linkage.Holds`: a piece of code stands in linked code from a place on, its labels marking the
  places where they stand;
* `exists_linkage_of_link`: code that has been linked stands there from the start on;
* `places_of_nodup`: labels of different names get their places;
* `linkAll_of_forall`: code is linked when each of its instructions is.
-/

namespace Covenant

namespace Code

def size : Code → Nat
  | [] => 0
  | .label _ :: rest => size rest
  | .instruction _ :: rest => size rest + 1

def instructions : Code → List (Instruction String)
  | [] => []
  | .label _ :: rest => instructions rest
  | .instruction i :: rest => i :: instructions rest

def labelNames : Code → List String
  | [] => []
  | .label name :: rest => name :: labelNames rest
  | .instruction _ :: rest => labelNames rest

/-- The labels with the places that they mark, counting instructions from `place`. -/
def marks (place : Nat) : Code → List (String × Nat)
  | [] => []
  | .label name :: rest => (name, place) :: marks place rest
  | .instruction _ :: rest => marks (place + 1) rest

@[simp] theorem size_append (a b : Code) : size (a ++ b) = size a + size b := by
  induction a with
  | nil => simp [size]
  | cons line rest ih =>
    cases line <;> simp only [List.cons_append, size, ih]
    omega

@[simp] theorem size_nil : size [] = 0 := rfl

@[simp] theorem size_label (name : String) (rest : Code) : size (.label name :: rest) = size rest :=
  rfl

@[simp] theorem size_op (i : Instruction String) (rest : Code) :
    size (.op i :: rest) = size rest + 1 := rfl

theorem length_instructions (code : Code) : code.instructions.length = code.size := by
  induction code with
  | nil => rfl
  | cons line rest ih => cases line <;> simp only [instructions, size, List.length_cons, ih]

theorem instructions_append (a b : Code) : instructions (a ++ b) = instructions a ++ instructions b := by
  induction a with
  | nil => rfl
  | cons line rest ih => cases line <;> simp only [List.cons_append, instructions, ih]

@[simp] theorem labelNames_append (a b : Code) :
    labelNames (a ++ b) = labelNames a ++ labelNames b := by
  induction a with
  | nil => rfl
  | cons line rest ih => cases line <;> simp only [List.cons_append, labelNames, ih]

@[simp] theorem labelNames_nil : labelNames [] = [] := rfl

@[simp] theorem labelNames_label (name : String) (rest : Code) :
    labelNames (.label name :: rest) = name :: labelNames rest := rfl

@[simp] theorem labelNames_op (i : Instruction String) (rest : Code) :
    labelNames (.op i :: rest) = labelNames rest := rfl

theorem marks_map_fst (place : Nat) (code : Code) :
    (marks place code).map Prod.fst = labelNames code := by
  induction code generalizing place with
  | nil => rfl
  | cons line rest ih => cases line <;> simp only [marks, labelNames, List.map_cons, ih]

end Code

/-! ## Places of labels -/

namespace Code

/-- Finding the places of labels goes well just when their names are different. -/
theorem places_eq_ok_iff {place : Nat} {found found' : List (String × Nat)} {code : Code} :
    places place found code = .ok found' ↔ found' = (marks place code).reverse ++ found ∧
      (labelNames code).Nodup ∧ ∀ name ∈ labelNames code, name ∉ found.map Prod.fst := by
  induction code generalizing place found with
  | nil => simp [places, marks, eq_comm]
  | cons line rest ih =>
    cases line with
    | instruction i => simp only [places, marks, labelNames, ih]
    | label name =>
      rw [places, marks, labelNames]
      cases hl : found.lookup name with
      | some place' =>
        have : name ∈ found.map Prod.fst := List.mem_map.mpr ⟨_, mem_of_lookup hl, rfl⟩
        simp only [Option.isSome_some, if_true, reduceCtorEq, false_iff, not_and]
        intro _ _ hn
        exact hn name List.mem_cons_self this
      | none =>
        simp only [Option.isSome_none, Bool.false_eq_true, if_false, ih, List.map_cons,
          List.nodup_cons, List.mem_cons, List.reverse_cons, List.append_assoc, List.cons_append,
          List.nil_append, not_or]
        have new := lookup_eq_none_iff.mp hl
        constructor
        · rintro ⟨rfl, nodup, other⟩
          refine ⟨rfl, ⟨fun hm => (other name hm).1 rfl, nodup⟩, ?_⟩
          rintro n (rfl | hn)
          · exact new
          · exact (other n hn).2
        · rintro ⟨rfl, ⟨hm, nodup⟩, other⟩
          refine ⟨rfl, nodup, fun n hn => ⟨?_, other n (.inr hn)⟩⟩
          rintro rfl
          exact hm hn

/-- Labels of different names get the places that they mark. -/
theorem places_of_nodup {code : Code} (nodup : (labelNames code).Nodup) :
    places 0 [] code = .ok (marks 0 code).reverse :=
  places_eq_ok_iff.mpr ⟨by simp, nodup, by simp⟩

/-- Code is linked when each of its instructions is. -/
theorem linkAll_of_forall {abi : Abi} {header : Header} {labels : List (String × Nat)} {code : Code}
    (h : ∀ i, .instruction i ∈ code → ∃ j, linkInstruction abi header labels i = .ok j) :
    ∃ linked, linkAll abi header labels code = .ok linked := by
  induction code with
  | nil => exact ⟨[], rfl⟩
  | cons line rest ih =>
    obtain ⟨linked, hl⟩ := ih fun i hi => h i (List.mem_cons_of_mem _ hi)
    cases line with
    | label name => exact ⟨linked, hl⟩
    | instruction i =>
      obtain ⟨j, hj⟩ := h i List.mem_cons_self
      exact ⟨j :: linked, by rw [linkAll, hj, hl]; rfl⟩

theorem linkAll_cons_eq_ok {abi : Abi} {header : Header} {labels : List (String × Nat)}
    {i : Instruction String} {rest : Code} {linked : List (Instruction Nat)}
    (h : linkAll abi header labels (.instruction i :: rest) = .ok linked) :
    ∃ j linked', linkInstruction abi header labels i = .ok j ∧
      linkAll abi header labels rest = .ok linked' ∧ linked = j :: linked' := by
  rw [linkAll] at h
  cases hi : linkInstruction abi header labels i with
  | error e => simp [hi, bind, Except.bind] at h
  | ok j =>
    cases hr : linkAll abi header labels rest with
    | error e => simp [hi, hr, bind, Except.bind] at h
    | ok linked' =>
      simp only [hi, hr, bind, Except.bind, pure, Except.pure, Except.ok.injEq] at h
      exact ⟨j, linked', rfl, rfl, h.symm⟩

theorem length_of_linkAll {abi : Abi} {header : Header} {labels : List (String × Nat)} {code : Code}
    {linked : List (Instruction Nat)} (h : linkAll abi header labels code = .ok linked) :
    linked.length = code.size := by
  induction code generalizing linked with
  | nil =>
    cases h
    rfl
  | cons line rest ih =>
    cases line with
    | label name => exact ih h
    | instruction i =>
      obtain ⟨j, linked', -, hr, rfl⟩ := linkAll_cons_eq_ok h
      rw [List.length_cons, ih hr]
      rfl

/-- Every linked instruction comes from one of the code. -/
theorem exists_instruction_of_linkAll {abi : Abi} {header : Header} {labels : List (String × Nat)}
    {code : Code} {linked : List (Instruction Nat)}
    (h : linkAll abi header labels code = .ok linked) {j : Instruction Nat} (hj : j ∈ linked) :
    ∃ i, .instruction i ∈ code ∧ linkInstruction abi header labels i = .ok j := by
  induction code generalizing linked with
  | nil =>
    cases h
    cases hj
  | cons line rest ih =>
    cases line with
    | label name =>
      obtain ⟨i, hi, he⟩ := ih h hj
      exact ⟨i, List.mem_cons_of_mem _ hi, he⟩
    | instruction i =>
      obtain ⟨j', linked', hi, hr, rfl⟩ := linkAll_cons_eq_ok h
      rcases List.mem_cons.mp hj with rfl | hj
      · exact ⟨i, List.mem_cons_self, hi⟩
      · obtain ⟨i', hi', he⟩ := ih hr hj
        exact ⟨i', List.mem_cons_of_mem _ hi', he⟩

/-! ## Linked code -/

theorem link_eq_ok {abi : Abi} {header : Header} {code : Code} {linked : LinkedCode}
    (h : code.link abi header = .ok linked) :
    ∃ labels l, places 0 [] code = .ok labels ∧ linkAll abi header labels code = .ok l ∧
      linked = l.toArray ∧ linked.checkStack = .ok () := by
  rw [link] at h
  cases hp : places 0 [] code with
  | error e => simp [hp, bind, Except.bind] at h
  | ok labels =>
    cases hl : linkAll abi header labels code with
    | error e => simp [hp, hl, bind, Except.bind] at h
    | ok l =>
      cases hs : LinkedCode.checkStack l.toArray with
      | error e => simp [hp, hl, hs, bind, Except.bind] at h
      | ok _ =>
        simp only [hp, hl, hs, bind, Except.bind, pure, Except.pure, Except.ok.injEq] at h
        exact ⟨labels, l, rfl, hl, h.symm, h ▸ hs⟩

theorem link_of_parts {abi : Abi} {header : Header} {code : Code} {labels : List (String × Nat)}
    {l : List (Instruction Nat)} (hp : places 0 [] code = .ok labels)
    (hl : linkAll abi header labels code = .ok l)
    (hs : LinkedCode.checkStack l.toArray = .ok ()) : code.link abi header = .ok l.toArray := by
  simp only [link, hp, hl, hs, bind, Except.bind, pure, Except.pure]

end Code

structure Linkage where
  abi : Abi
  header : Header
  labels : List (String × Nat)
  code : LinkedCode

namespace Linkage

open Code (linkInstruction size)

/-- An instruction has been linked to a place. -/
def HasAt (l : Linkage) (place : Nat) (i : Instruction String) : Prop :=
  ∃ j, linkInstruction l.abi l.header l.labels i = .ok j ∧ l.code[place]? = some j

/-- A piece of code stands in the linked code from a place on. -/
def Holds (l : Linkage) (place : Nat) : Code → Prop
  | [] => True
  | .label name :: rest => l.labels.lookup name = some place ∧ l.Holds place rest
  | .instruction i :: rest => l.HasAt place i ∧ l.Holds (place + 1) rest

theorem holds_append {l : Linkage} {place : Nat} {a b : Code} :
    l.Holds place (a ++ b) ↔ l.Holds place a ∧ l.Holds (place + size a) b := by
  induction a generalizing place with
  | nil => simp [Holds, size]
  | cons line rest ih =>
    cases line with
    | label name => simp only [List.cons_append, Holds, size, ih, and_assoc]
    | instruction i =>
      simp only [List.cons_append, Holds, size, ih, and_assoc, Nat.add_assoc, Nat.add_comm 1]

@[simp] theorem holds_nil {l : Linkage} {place : Nat} : l.Holds place [] ↔ True := Iff.rfl

@[simp] theorem holds_label {l : Linkage} {place : Nat} {name : String} {rest : Code} :
    l.Holds place (.label name :: rest) ↔
      l.labels.lookup name = some place ∧ l.Holds place rest := Iff.rfl

@[simp] theorem holds_op {l : Linkage} {place : Nat} {i : Instruction String} {rest : Code} :
    l.Holds place (.op i :: rest) ↔ l.HasAt place i ∧ l.Holds (place + 1) rest := Iff.rfl

/-- At each of its places a piece of code has one of its instructions. -/
theorem Holds.exists_at {l : Linkage} {place k : Nat} {code : Code} (holds : l.Holds place code)
    (inside : k < size code) : ∃ i, .instruction i ∈ code ∧ l.HasAt (place + k) i := by
  induction code generalizing place k with
  | nil => cases inside
  | cons line rest ih =>
    cases line with
    | label name =>
      obtain ⟨i, hi, here⟩ := ih holds.2 inside
      exact ⟨i, List.mem_cons_of_mem _ hi, here⟩
    | instruction i =>
      cases k with
      | zero => exact ⟨i, List.mem_cons_self, holds.1⟩
      | succ k =>
        obtain ⟨i', hi, here⟩ := ih holds.2 (Nat.lt_of_succ_lt_succ inside)
        rw [Nat.add_assoc, Nat.add_comm 1] at here
        exact ⟨i', List.mem_cons_of_mem _ hi, here⟩

/-- The labels of a piece of code mark places from its start on. -/
theorem Holds.exists_label {l : Linkage} {place : Nat} {code : Code} (holds : l.Holds place code)
    {name : String} (here : name ∈ code.labelNames) :
    ∃ q, l.labels.lookup name = some q ∧ place ≤ q := by
  induction code generalizing place with
  | nil => cases here
  | cons line rest ih =>
    cases line with
    | label other =>
      rcases List.mem_cons.mp here with rfl | later
      · exact ⟨place, holds.1, Nat.le_refl place⟩
      · exact ih holds.2 later
    | instruction i =>
      obtain ⟨q, hq, le⟩ := ih holds.2 here
      exact ⟨q, hq, Nat.le_of_succ_le le⟩

theorem holds_of_parts {l : Linkage} {place : Nat} {code : Code} {linked : List (Instruction Nat)}
    (marks : ∀ name q, (name, q) ∈ code.marks place → l.labels.lookup name = some q)
    (hl : Code.linkAll l.abi l.header l.labels code = .ok linked)
    (stands : ∀ k j, linked[k]? = some j → l.code[place + k]? = some j) :
    l.Holds place code := by
  induction code generalizing place linked with
  | nil => trivial
  | cons line rest ih =>
    cases line with
    | label name =>
      exact ⟨marks name place List.mem_cons_self,
        ih (fun n q hq => marks n q (List.mem_cons_of_mem _ hq)) hl stands⟩
    | instruction i =>
      obtain ⟨j, linked', hi, hr, rfl⟩ := Code.linkAll_cons_eq_ok hl
      refine ⟨⟨j, hi, stands 0 j rfl⟩, ih marks hr fun k j' hk => ?_⟩
      rw [Nat.add_assoc, Nat.add_comm 1 k]
      exact stands (k + 1) j' hk

end Linkage

/-- Linked code holds the code that it was linked from, and nothing else. -/
theorem exists_linkage_of_link {abi : Abi} {header : Header} {code : Code} {linked : LinkedCode}
    (h : code.link abi header = .ok linked) :
    ∃ labels, Linkage.Holds ⟨abi, header, labels, linked⟩ 0 code ∧ linked.size = code.size := by
  obtain ⟨labels, l, hp, hl, rfl, -⟩ := Code.link_eq_ok h
  obtain ⟨rfl, nodup, -⟩ := Code.places_eq_ok_iff.mp hp
  refine ⟨_, Linkage.holds_of_parts (fun name q hq => ?_) hl fun k j hk => ?_,
    List.size_toArray.trans (Code.length_of_linkAll hl)⟩
  · refine lookup_of_mem ?_ ?_
    · rw [List.append_nil, List.map_reverse, List.nodup_reverse, Code.marks_map_fst]
      exact nodup
    · simpa using hq
  · simpa using hk

end Covenant
