import Covenant.Datum.Access
import Covenant.Proofs.Except
import Mathlib.Data.Int.Order.Basic
/-!
Members of records and places in lists, and what replacing one of them leaves as it was.
-/

namespace Covenant

theorem Failure.lift_eq_ok {α : Type} {x : Except Misuse α} {a : α} :
    Failure.lift x = .ok a ↔ x = .ok a := by
  cases x <;> simp [Failure.lift]

/-! ## Members of records -/

theorem lookup_setField {α : Type} (name : String) (value : α) (fields : List (String × α))
    (n : String) : (setField name value fields).lookup n =
      if n = name then some value else fields.lookup n := by
  induction fields with
  | nil =>
    by_cases h : n = name
    · simp [setField, h]
    · simp [setField, h, List.lookup_cons, beq_false_of_ne h]
  | cons f rest ih =>
    obtain ⟨m, v⟩ := f
    simp only [setField]
    by_cases hm : m = name
    · subst hm
      by_cases h : n = m
      · simp [h]
      · simp [h, List.lookup_cons, beq_false_of_ne h]
    · rw [if_neg hm, List.lookup_cons, List.lookup_cons]
      by_cases h : n = m
      · subst h
        simp [hm]
      · rw [beq_false_of_ne h, ih]

/-- Of members with one name the last one counts. -/
theorem lookup_ofMembers {α : Type} (members : List (String × α)) (name : String) :
    (ofMembers members).lookup name = members.reverse.lookup name := by
  suffices h : ∀ found : List (String × α),
      (members.foldl (fun fields m => setField m.1 m.2 fields) found).lookup name =
        (members.reverse.lookup name).or (found.lookup name) by
    simpa [ofMembers] using h []
  induction members with
  | nil => simp
  | cons m rest ih =>
    intro found
    rw [List.foldl_cons, ih, lookup_setField, List.reverse_cons, List.lookup_append]
    cases rest.reverse.lookup name with
    | some v => rfl
    | none =>
      obtain ⟨n, v⟩ := m
      by_cases h : name = n
      · simp [h]
      · simp [h, List.lookup_cons, beq_false_of_ne h]

theorem setField_of_notMem {α : Type} {name : String} (value : α) {fields : List (String × α)}
    (new : name ∉ fields.map Prod.fst) : setField name value fields = fields ++ [(name, value)] := by
  induction fields with
  | nil => rfl
  | cons f rest ih =>
    obtain ⟨n, v⟩ := f
    simp only [List.map_cons, List.mem_cons, not_or] at new
    rw [setField, if_neg (Ne.symm new.1), ih new.2, List.cons_append]

/-- Members of different names are kept as they are. -/
theorem ofMembers_of_nodup {α : Type} {members : List (String × α)}
    (nodup : (members.map Prod.fst).Nodup) : ofMembers members = members := by
  suffices h : ∀ found : List (String × α), ((found ++ members).map Prod.fst).Nodup →
      members.foldl (fun fields m => setField m.1 m.2 fields) found = found ++ members by
    simpa [ofMembers] using h [] nodup
  clear nodup
  induction members with
  | nil => simp
  | cons m rest ih =>
    intro found nodup
    have new : m.1 ∉ found.map Prod.fst := by
      rw [List.map_append, List.map_cons, List.nodup_append] at nodup
      exact fun here => nodup.2.2 _ here _ List.mem_cons_self rfl
    have moved : found ++ m :: rest = (found ++ [m]) ++ rest := by simp
    rw [List.foldl_cons, setField_of_notMem m.2 new, ih _ (moved ▸ nodup), moved]

theorem mem_of_mem_setField {α : Type} {name : String} {value : α} {fields : List (String × α)}
    {p : String × α} (h : p ∈ setField name value fields) : p = (name, value) ∨ p ∈ fields := by
  induction fields with
  | nil => exact .inl (List.mem_singleton.mp h)
  | cons f rest ih =>
    obtain ⟨n, v⟩ := f
    rw [setField] at h
    split at h
    next same =>
      rcases List.mem_cons.mp h with first | later
      · exact .inl (same ▸ first)
      · exact .inr (List.mem_cons_of_mem _ later)
    next =>
      rcases List.mem_cons.mp h with rfl | later
      · exact .inr List.mem_cons_self
      · exact (ih later).imp_right (List.mem_cons_of_mem _)

theorem nodup_setField {α : Type} {name : String} {value : α} {fields : List (String × α)}
    (nodup : (fields.map Prod.fst).Nodup) : ((setField name value fields).map Prod.fst).Nodup := by
  induction fields with
  | nil => simp [setField]
  | cons f rest ih =>
    obtain ⟨n, v⟩ := f
    rw [List.map_cons, List.nodup_cons] at nodup
    rw [setField]
    split
    next same => exact List.nodup_cons.mpr nodup
    next other =>
      refine List.nodup_cons.mpr ⟨fun again => ?_, ih nodup.2⟩
      obtain ⟨p, own, same⟩ := List.mem_map.mp again
      rcases mem_of_mem_setField own with rfl | old
      · exact other same.symm
      · exact nodup.1 (List.mem_map.mpr ⟨p, old, same⟩)

/-- No two members of a record that is made of members have one name. -/
theorem nodup_ofMembers {α : Type} (members : List (String × α)) :
    ((ofMembers members).map Prod.fst).Nodup := by
  suffices kept : ∀ found : List (String × α), (found.map Prod.fst).Nodup →
      ((members.foldl (fun fields m => setField m.1 m.2 fields) found).map Prod.fst).Nodup from
    kept [] List.nodup_nil
  induction members with
  | nil => exact fun _ nodup => nodup
  | cons m rest ih => exact fun found nodup => ih _ (nodup_setField nodup)

theorem mem_of_mem_ofMembers {α : Type} {members : List (String × α)} {p : String × α}
    (h : p ∈ ofMembers members) : p ∈ members := by
  suffices kept : ∀ found : List (String × α),
      p ∈ members.foldl (fun fields m => setField m.1 m.2 fields) found → p ∈ members ∨ p ∈ found from
    (kept [] h).resolve_right List.not_mem_nil
  clear h
  induction members with
  | nil => exact fun found h => .inr h
  | cons m rest ih =>
    intro found h
    rcases ih _ h with later | here
    · exact .inl (List.mem_cons_of_mem _ later)
    · rcases mem_of_mem_setField here with rfl | before
      · exact .inl List.mem_cons_self
      · exact .inr before

namespace Datum

variable {d d' value x : Datum}

theorem exists_of_member {name : String} (h : d.member name = .ok x) :
    ∃ fields, d = .record fields ∧ fields.lookup name = some x := by
  cases d with
  | record fields =>
    simp only [member] at h
    split at h
    next found =>
      cases h
      exact ⟨fields, rfl, found⟩
    next => cases h
  | _ => cases h

/-- A field that has been linked against is still there when another one has been set. -/
theorem member_setField {name other : String} {value d : Datum} {fields : Fields}
    (h : (Datum.record fields).member name = .ok d) :
    ∃ d', (Datum.record (setField other value fields)).member name = .ok d' := by
  simp only [Datum.member, lookup_setField] at h ⊢
  by_cases hn : name = other
  · exact ⟨value, by simp [hn]⟩
  · exact ⟨d, by rw [if_neg hn]; exact h⟩

/-! ## Parts -/

theorem size_of_parts {parts : List Datum} (h : d.parts = .ok parts) : d.size = .ok parts.length := by
  cases d with
  | list | bytes | record =>
    cases h
    simp [size]
  | text s =>
    cases h
    rw [size, List.length_map, String.length_toList]
  | _ => cases h

/-- The check of a place that an integer gives. -/
theorem checkPlace_of_whole {index : Datum} {i : Int} (whole : index.number? = some (.whole i)) (n : Nat) :
    checkPlace index (.ok n) = if 0 ≤ i ∧ i < n then .ok () else .error (.outOfBounds index n) := by
  have inside : (compare i 0 != .lt && compare i (n : Int) == .lt) = true ↔ 0 ≤ i ∧ i < n := by
    rw [Bool.and_eq_true, bne_iff_ne, beq_iff_eq, compare_lt_iff_lt, ← not_lt, Ne, compare_lt_iff_lt]
  unfold checkPlace asNumber
  rw [whole]
  change (if (compare i 0 != .lt && compare i (n : Int) == .lt) = true then _ else _) = _
  exact if_congr inside rfl rfl

theorem range_of_checkPlace {index : Datum} {i : Int} (whole : index.number? = some (.whole i)) {n : Nat}
    (h : checkPlace index (.ok n) = .ok ()) : 0 ≤ i ∧ i < n := by
  rw [checkPlace_of_whole whole] at h
  split at h
  next inside => exact inside
  next => cases h

/-- A place that has been checked is inside. -/
theorem place_lt {index : Datum} {n i : Nat} (checked : checkPlace index (.ok n) = .ok ())
    (hi : index.place = .ok i) : i < n := by
  unfold place at hi
  split at hi
  next k whole =>
    cases hi
    have range := range_of_checkPlace whole checked
    omega
  next => cases hi

theorem exists_element {index : Datum} (h : d.element index = .ok x) : ∃ parts i, d.parts = .ok parts ∧
    index.place = .ok i ∧ checkPlace index (.ok parts.length) = .ok () ∧ parts[i]? = some x := by
  obtain ⟨u, checked, h⟩ := bind_eq_ok.mp h
  split at h
  · cases h
  · obtain ⟨i, hi, h⟩ := bind_eq_ok.mp h
    obtain ⟨parts, hp, h⟩ := bind_eq_ok.mp h
    have parts_eq := Failure.lift_eq_ok.mp hp
    rw [size_of_parts parts_eq] at checked
    refine ⟨parts, i, parts_eq, Failure.lift_eq_ok.mp hi, checked, ?_⟩
    split at h
    next found => rw [found, pure_eq_ok.mp h]
    next => cases h

theorem element_list {parts : List Datum} {index : Datum} {i : Nat} (hi : index.place = .ok i)
    (checked : checkPlace index (.ok parts.length) = .ok ()) (found : parts[i]? = some x) :
    (Datum.list parts).element index = .ok x := by
  refine bind_eq_ok.mpr ⟨(), checked, bind_eq_ok.mpr ⟨i, Failure.lift_eq_ok.mpr hi,
    bind_eq_ok.mpr ⟨parts, rfl, ?_⟩⟩⟩
  rw [found]
  rfl

theorem exists_withMember {name : String} (h : d.withMember name value = .ok d') :
    ∃ fields, d.toFields = .ok fields ∧ d' = .record (setField name value fields) := by
  obtain ⟨fields, hf, h⟩ := bind_eq_ok.mp h
  exact ⟨fields, hf, (pure_eq_ok.mp h).symm⟩

theorem exists_withElement {index : Datum} (h : d.withElement index value = .ok d') :
    ∃ parts i, d.parts = .ok parts ∧ index.place = .ok i ∧
      checkPlace index (.ok parts.length) = .ok () ∧ d' = .list (parts.set i value) := by
  obtain ⟨parts, hp, h⟩ := bind_eq_ok.mp h
  obtain ⟨u, checked, h⟩ := bind_eq_ok.mp h
  obtain ⟨i, hi, h⟩ := bind_eq_ok.mp h
  exact ⟨parts, i, Failure.lift_eq_ok.mp hp, Failure.lift_eq_ok.mp hi, checked, (pure_eq_ok.mp h).symm⟩

end Datum

end Covenant
