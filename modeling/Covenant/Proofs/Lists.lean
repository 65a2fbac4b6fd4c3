import Mathlib.Data.List.Forall2
/-!
Lists of names with what they stand for, and lists that go side by side.
-/

namespace Covenant

theorem lookup_eq_none_iff {α : Type} {name : String} {l : List (String × α)} :
    l.lookup name = none ↔ name ∉ l.map Prod.fst := by
  rw [List.lookup_eq_none_iff]
  simp only [bne_iff_ne, List.mem_map, not_exists, not_and]
  exact forall₂_congr fun p _ => ne_comm

/-- In a list of pairs with different names a lookup finds each of them. -/
theorem lookup_of_mem {α : Type} {name : String} {a : α} {l : List (String × α)}
    (nodup : (l.map Prod.fst).Nodup) (h : (name, a) ∈ l) : l.lookup name = some a := by
  induction l with
  | nil => cases h
  | cons p rest ih =>
    obtain ⟨n, b⟩ := p
    rw [List.map_cons, List.nodup_cons] at nodup
    rcases List.mem_cons.mp h with he | hr
    · obtain ⟨rfl, rfl⟩ := Prod.mk.inj he
      simp
    · have hn : name ≠ n := by
        rintro rfl
        exact nodup.1 (List.mem_map.mpr ⟨_, hr, rfl⟩)
      rw [List.lookup_cons, beq_false_of_ne hn]
      exact ih nodup.2 hr

theorem mem_of_lookup {κ α : Type} [BEq κ] [LawfulBEq κ] {name : κ} {a : α} {l : List (κ × α)}
    (h : l.lookup name = some a) : (name, a) ∈ l := by
  obtain ⟨l₁, l₂, rfl, -⟩ := List.lookup_eq_some_iff.mp h
  simp

theorem exists_lookup_iff {α : Type} {name : String} {l : List (String × α)} :
    (∃ a, l.lookup name = some a) ↔ name ∈ l.map Prod.fst := by
  rw [← Option.isSome_iff_exists, ← not_iff_not, Option.not_isSome_iff_eq_none, lookup_eq_none_iff]

/-- The members that are made of those of a list. -/
theorem lookup_map {κ α β : Type} [BEq κ] [LawfulBEq κ] (f : κ × α → β) (l : List (κ × α)) (name : κ) :
    (l.map fun p => (p.1, f p)).lookup name = (l.lookup name).map fun a => f (name, a) := by
  induction l with
  | nil => rfl
  | cons p rest ih =>
    obtain ⟨other, a⟩ := p
    rw [List.map_cons, List.lookup_cons, List.lookup_cons]
    cases same : name == other with
    | true =>
      obtain rfl := beq_iff_eq.mp same
      rfl
    | false => exact ih

/-- With a new name at their front, different names that are all new stay so. -/
theorem nodup_cons_of_new {α : Type} {name : α → String} {seen : List String} {a : α} {l : List α}
    (new : name a ∉ seen) (rest : (l.map name).Nodup ∧ ∀ b ∈ l, name b ∉ name a :: seen) :
    ((a :: l).map name).Nodup ∧ ∀ b ∈ a :: l, name b ∉ seen := by
  obtain ⟨nodup, others⟩ := rest
  refine ⟨List.nodup_cons.mpr ⟨fun here => ?_, nodup⟩, List.forall_mem_cons.mpr ⟨new, ?_⟩⟩
  · obtain ⟨b, hb, same⟩ := List.mem_map.mp here
    exact others b hb (same ▸ List.mem_cons_self)
  · exact fun b hb hs => others b hb (List.mem_cons_of_mem _ hs)

/-- What only one member of a list is leads to it. -/
theorem find?_eq_of_only {α : Type} {p : α → Bool} {l : List α} {a : α} (ha : a ∈ l) (is : p a = true)
    (only : ∀ b ∈ l, p b = true → b = a) : l.find? p = some a := by
  cases found : l.find? p with
  | none => exact absurd is (List.find?_eq_none.mp found a ha)
  | some b => rw [only b (List.mem_of_find?_eq_some found) (List.find?_some found)]

/-- Of two lists put side by side the second one is cut off where the first one ends. -/
theorem map_snd_zip {α β : Type} (as : List α) (bs : List β) :
    (as.zip bs).map Prod.snd = bs.take as.length := by
  induction as generalizing bs with
  | nil => rfl
  | cons a as ih =>
    cases bs with
    | nil => rfl
    | cons b bs =>
      rw [List.zip_cons_cons, List.map_cons, ih]
      rfl

/-- What stands in the second of two lists of one length stands beside something. -/
theorem exists_beside {α β : Type} {as : List α} {bs : List β} (length : as.length = bs.length)
    {b : β} (h : b ∈ bs) : ∃ a, (a, b) ∈ as.zip bs := by
  obtain ⟨i, hi, rfl⟩ := List.getElem_of_mem h
  have hz : i < (as.zip bs).length := by
    rw [List.length_zip]
    omega
  exact ⟨as[i], by simpa using List.getElem_mem hz⟩

/-- What stands in the second of two lists side by side stands beside something. -/
theorem exists_of_forall₂ {α β : Type} {R : α → β → Prop} {as : List α} {bs : List β}
    (h : List.Forall₂ R as bs) {b : β} (hb : b ∈ bs) : ∃ a ∈ as, R a b := by
  obtain ⟨a, ha⟩ := exists_beside h.length_eq hb
  exact ⟨a, (List.of_mem_zip ha).1, List.forall₂_zip h ha⟩

/-- What both of two lists side by side have alike. -/
theorem map_eq_of_forall₂ {α β γ : Type} {f : α → γ} {g : β → γ} {as : List α} {bs : List β}
    (h : List.Forall₂ (fun a b => f a = g b) as bs) : as.map f = bs.map g := by
  rw [← List.forall₂_eq_eq_eq, List.forall₂_map_left_iff, List.forall₂_map_right_iff]
  exact h

theorem forall₂_of_map_eq {α β γ : Type} {f : α → γ} {g : β → γ} {as : List α} {bs : List β}
    (h : as.map f = bs.map g) : List.Forall₂ (fun a b => f a = g b) as bs := by
  rwa [← List.forall₂_eq_eq_eq, List.forall₂_map_left_iff, List.forall₂_map_right_iff] at h

/-- Two lists go side by side in any way in which their members do. -/
theorem forall₂_imp_of_mem {α β : Type} {R S : α → β → Prop} {as : List α} {bs : List β}
    (h : List.Forall₂ R as bs) (imp : ∀ a ∈ as, ∀ b ∈ bs, R a b → S a b) : List.Forall₂ S as bs := by
  induction h with
  | nil => exact .nil
  | cons first _ ih =>
    refine .cons (imp _ List.mem_cons_self _ List.mem_cons_self first) (ih fun a ha b hb => ?_)
    exact imp a (List.mem_cons_of_mem _ ha) b (List.mem_cons_of_mem _ hb)

end Covenant
