import Covenant.Proofs.Datum.Access
import Covenant.Proofs.Statement.Reading
/-!
What the replacement of a part leaves as it was.

* `Step.Apart`, `Apart`: two steps to different parts of a value, and two paths that part at such steps;
* `Datum.partAlong_replaced`, `Datum.partAlong_replaced_of_apart`: after a replacement the new part is at
  the end of its path, and what is apart from it is still there;
* `Memory.Changes`: so it is with a part of a local or of a field of the receiver, all other locals and
  fields being what they were.
-/

namespace Covenant

open Machine (slotValue)

/-- Two steps that lead to different members of a record, or to different places in an array. -/
def Step.Apart : Step Datum → Step Datum → Prop
  | .member name, .member other => name ≠ other
  | .element index, .element other => index.place ≠ other.place
  | _, _ => False

/-- Two paths that go together up to steps that lead to different parts. -/
inductive Apart : List (Step Datum) → List (Step Datum) → Prop
  | here {step other : Step Datum} {rest others : List (Step Datum)} (apart : step.Apart other) :
      Apart (step :: rest) (other :: others)
  | later {step : Step Datum} {rest others : List (Step Datum)} (apart : Apart rest others) :
      Apart (step :: rest) (step :: others)

namespace Datum

variable {d d' value x : Datum} {step other : Step Datum}

theorem of_kept {place : Place} {r : Except Failure Datum} (h : kept place value r = .ok x) :
    r = .ok x := by
  unfold kept at h
  split at h
  · cases h
  · exact h

theorem exists_withField {name : String} (h : d.withField name value = .ok d') :
    ∃ fields, d = .record fields ∧ d' = .record (setField name value fields) := by
  have made := of_kept h
  cases d with
  | record fields => exact ⟨fields, rfl, (Except.ok.inj made).symm⟩
  | _ => cases made

/-! ## One step -/

/-- The new part is there. -/
theorem part_withPart (h : d.withPart step value = .ok d') : d'.part step = .ok value := by
  have made := of_kept h
  cases step with
  | member name =>
    obtain ⟨fields, -, rfl⟩ := exists_withMember (Failure.lift_eq_ok.mp made)
    rw [part, member, lookup_setField, if_pos rfl]
    rfl
  | element index =>
    obtain ⟨parts, i, -, hi, checked, rfl⟩ := exists_withElement made
    refine element_list hi (by rw [List.length_set]; exact checked) ?_
    rw [List.getElem?_set_self (place_lt checked hi)]

/-- The other parts are what they were. -/
theorem part_withPart_of_apart (apart : step.Apart other) (h : d.withPart step value = .ok d')
    (hx : d.part other = .ok x) : d'.part other = .ok x := by
  have made := of_kept h
  cases step with
  | member name =>
    cases other with
    | element => cases apart
    | member word =>
      obtain ⟨fields, hf, rfl⟩ := exists_withMember (Failure.lift_eq_ok.mp made)
      have found := Failure.lift_eq_ok.mp hx
      cases d with
      | record own =>
        cases hf
        refine Failure.lift_eq_ok.mpr ?_
        rw [member, lookup_setField, if_neg (Ne.symm apart)]
        exact found
      | _ => cases found
  | element index =>
    cases other with
    | member => cases apart
    | element place =>
      obtain ⟨parts, i, hp, hi, checked, rfl⟩ := exists_withElement made
      obtain ⟨parts', j, hp', hj, checked', found⟩ := exists_element hx
      cases hp.symm.trans hp'
      have ne : i ≠ j := by
        rintro rfl
        exact apart (hi.trans hj.symm)
      refine element_list hj (by rw [List.length_set]; exact checked') ?_
      rw [List.getElem?_set_ne ne, found]

/-! ## Paths -/

theorem partAlong_error (failure : Failure) (path : List (Step Datum)) :
    partAlong (.error failure) path = .error failure := by
  induction path with
  | nil => rfl
  | cons step rest ih => exact ih

theorem exists_of_partAlong {whole : Except Failure Datum} {path : List (Step Datum)}
    (h : partAlong whole path = .ok x) : ∃ d, whole = .ok d := by
  cases whole with
  | ok d => exact ⟨d, rfl⟩
  | error failure =>
    rw [partAlong_error] at h
    cases h

/-- The new part is at the end of the path. -/
theorem partAlong_replaced {whole : Except Failure Datum} {path : List (Step Datum)}
    (h : replaced value whole path = .ok d') : partAlong (.ok d') path = .ok value := by
  induction path generalizing whole d' with
  | nil => exact h.symm
  | cons step rest ih =>
    obtain ⟨d, -, h⟩ := bind_eq_ok.mp h
    obtain ⟨part, hp, h⟩ := bind_eq_ok.mp h
    rw [partAlong, ok_bind, part_withPart h]
    exact ih hp

/-- What is replaced in a value that is there. -/
theorem exists_of_replaced {whole : Except Failure Datum} {rest : List (Step Datum)}
    (h : replaced value whole (step :: rest) = .ok d') : ∃ d part, whole = .ok d ∧
      replaced value (d.part step) rest = .ok part ∧ d.withPart step part = .ok d' := by
  obtain ⟨d, hd, h⟩ := bind_eq_ok.mp h
  obtain ⟨part, hp, h⟩ := bind_eq_ok.mp h
  exact ⟨d, part, hd, hp, h⟩

/-- What is apart from the path is what it was. -/
theorem partAlong_replaced_of_apart {whole : Except Failure Datum} {path path' : List (Step Datum)}
    (apart : Apart path path') (h : replaced value whole path = .ok d')
    (hx : partAlong whole path' = .ok x) : partAlong (.ok d') path' = .ok x := by
  induction apart generalizing whole d' with
  | here apart =>
    obtain ⟨d, part, rfl, -, h⟩ := exists_of_replaced h
    rw [partAlong, ok_bind] at hx ⊢
    obtain ⟨y, hy⟩ := exists_of_partAlong hx
    rw [part_withPart_of_apart apart h hy, ← hy]
    exact hx
  | later _ ih =>
    obtain ⟨d, part, rfl, hp, h⟩ := exists_of_replaced h
    rw [partAlong, ok_bind] at hx ⊢
    rw [part_withPart h]
    exact ih hp hx

end Datum

/-! ## Locals and fields -/

namespace Memory

/-- A memory is another one with the part at the end of a path replaced: the part is there, and what is
apart from it, all other locals and all other fields of the receiver are what they were. -/
structure Changes (m m' : Memory) (root : Root) (path : List (Step Datum)) (value : Datum) : Prop where
  part : ∀ around, Datum.partAlong ((m'.world around).root root) path = .ok value
  apart : ∀ around {path' x}, Apart path path' →
    Datum.partAlong ((m.world around).root root) path' = .ok x →
    Datum.partAlong ((m'.world around).root root) path' = .ok x
  others : ∀ around {root'}, root' ≠ root → (m'.world around).root root' = (m.world around).root root'
  locals : m'.locals.length = m.locals.length

theorem store_slot {m m' : Memory} {value : Datum} {index : Nat}
    (h : m.store value (.slot index) = .next m') :
    index < m.locals.length ∧ m' = { m with locals := m.locals.set index value } := by
  by_cases inside : index < m.locals.length
  · rw [store, if_pos inside] at h
    exact ⟨inside, (Outcome.next.inj h).symm⟩
  · rw [store, if_neg inside] at h
    cases h

theorem store_field {m m' : Memory} {value : Datum} {name : String}
    (h : m.store value (.field name) = .next m') : ∃ fields, m.receiver = .record fields ∧
      m' = { m with receiver := .record (setField name value fields) } := by
  unfold store at h
  dsimp only at h
  cases made : m.receiver.withField name value with
  | error failure =>
    rw [made] at h
    cases h
  | ok receiver =>
    rw [made] at h
    obtain ⟨fields, record, rfl⟩ := Datum.exists_withField made
    exact ⟨fields, record, (Outcome.next.inj h).symm⟩

/-- What is stored is there, and all else is what it was. -/
theorem root_of_store {m m' : Memory} {value : Datum} {root : Root} (h : m.store value root = .next m')
    (around : Surroundings) : (m'.world around).root root = .ok value ∧
      (∀ root', root' ≠ root → (m'.world around).root root' = (m.world around).root root') ∧
      m'.locals.length = m.locals.length := by
  cases root with
  | slot index =>
    obtain ⟨inside, rfl⟩ := store_slot h
    refine ⟨?_, fun root' ne => ?_, List.length_set⟩
    · simp only [world, World.root, slotValue, List.getElem?_set_self inside]
    · cases root' with
      | slot other =>
        have apart : index ≠ other := fun same => ne (congrArg Root.slot same.symm)
        simp only [world, World.root, slotValue, List.getElem?_set_ne apart]
      | field name => rfl
  | field name =>
    obtain ⟨fields, receiver, rfl⟩ := store_field h
    refine ⟨?_, fun root' ne => ?_, rfl⟩
    · simp only [world, World.root, Datum.member, lookup_setField, if_pos]
      rfl
    · cases root' with
      | slot index => rfl
      | field other =>
        have apart : other ≠ name := fun same => ne (congrArg Root.field same)
        simp only [world, World.root, receiver, Datum.member, lookup_setField, if_neg apart]

/-- A replacement changes a part and nothing else. -/
theorem changes_of_put {around : Surroundings} {m m' : Memory} {root : Root}
    {path : List (Step Datum)} {value : Datum} (h : m.put around root path value = .next m') :
    m.Changes m' root path value := by
  unfold put at h
  cases made : Datum.replaced value ((m.world around).root root) path with
  | error failure =>
    rw [made] at h
    cases h
  | ok whole =>
    rw [made] at h
    have same : ∀ around', (m.world around').root root = (m.world around).root root := by
      intro around'
      cases root <;> rfl
    refine ⟨fun around' => ?_, fun around' _ _ apart hx => ?_,
      fun around' _ => (root_of_store h around').2.1 _, (root_of_store h around).2.2⟩
    · rw [(root_of_store h around').1]
      exact Datum.partAlong_replaced made
    · rw [(root_of_store h around').1]
      rw [same] at hx
      exact Datum.partAlong_replaced_of_apart apart made hx

end Memory

end Covenant
