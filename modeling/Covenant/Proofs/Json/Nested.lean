import Covenant.Proofs.Datum.Each
import Covenant.Proofs.Datum.Remarking
import Covenant.Proofs.Json.Reading
/-!
Arrays and objects in JSON text are read back as they have been written, which is with all members in
the order of their names.

* `arranged`: a datum with its members in that order;
* `Datum.Distinct`: no two members of one record have names of one form;
* `read_write_arranged`: what is written for a datum is read as the arranged datum;
* `read_write`: what is written on a line of code is read back.
-/

namespace Covenant

/-- The names in each record of a datum have different forms. -/
inductive Datum.Distinct (form : String → String) : Datum → Prop
  | atom {d : Datum} (plain : d.isAtom = true) : Distinct form d
  | list {items : List Datum} (each : ∀ d ∈ items, Distinct form d) : Distinct form (.list items)
  | record {fields : Fields} (names : (fields.map fun m => form m.1).Nodup)
      (each : ∀ m ∈ fields, Distinct form m.2) : Distinct form (.record fields)

namespace Datum.Distinct

variable {form : String → String}

theorem items {items : List Datum} (h : (Datum.list items).Distinct form) : ∀ d ∈ items, d.Distinct form := by
  cases h with
  | atom plain => cases plain
  | list each => exact each

theorem fields {fields : Fields} (h : (Datum.record fields).Distinct form) :
    (fields.map fun m => form m.1).Nodup ∧ ∀ m ∈ fields, m.2.Distinct form := by
  cases h with
  | atom plain => cases plain
  | record names each => exact ⟨names, each⟩

end Datum.Distinct

@[simp] theorem Datum.distinct_null {form : String → String} : Datum.null.Distinct form := .atom rfl

@[simp] theorem Datum.distinct_text {form : String → String} {s : String} : (Datum.text s).Distinct form :=
  .atom rfl

@[simp] theorem Datum.distinct_list {form : String → String} {items : List Datum} :
    (Datum.list items).Distinct form ↔ ∀ d ∈ items, d.Distinct form := ⟨Distinct.items, .list⟩

@[simp] theorem Datum.distinct_record {form : String → String} {fields : Fields} :
    (Datum.record fields).Distinct form ↔
      (fields.map fun m => form m.1).Nodup ∧ ∀ m ∈ fields, m.2.Distinct form :=
  ⟨Distinct.fields, fun h => .record h.1 h.2⟩

namespace Json

/-! ## The order of members -/

section Order

variable {α β : Type}

theorem sortFields_perm (fields : List (String × α)) : (sortFields fields).Perm fields :=
  List.mergeSort_perm fields _

theorem sortFields_sorted (fields : List (String × α)) :
    (sortFields fields).Pairwise fun a b => a.1 ≤ b.1 := by
  have sorted : (sortFields fields).Pairwise fun a b => decide (a.1 ≤ b.1) = true :=
    List.pairwise_mergeSort
      (fun a b c hab hbc => by
        simp only [decide_eq_true_eq] at hab hbc ⊢
        exact String.le_trans hab hbc)
      (fun a b => by
        simp only [Bool.or_eq_true, decide_eq_true_eq]
        exact String.le_total a.1 b.1) fields
  exact sorted.imp fun h => of_decide_eq_true h

theorem sortFields_of_sorted {fields : List (String × α)} (sorted : fields.Pairwise fun a b => a.1 ≤ b.1) :
    sortFields fields = fields :=
  List.mergeSort_of_pairwise (sorted.imp fun h => decide_eq_true h)

theorem sortFields_map (f : α → β) (fields : List (String × α)) :
    sortFields (fields.map fun m => (m.1, f m.2)) = (sortFields fields).map fun m => (m.1, f m.2) := by
  unfold sortFields
  rw [List.map_mergeSort]
  exact fun _ _ _ _ => rfl

/-- Members with different names have one order. -/
theorem eq_of_sorted {as bs : List (String × α)} (perm : as.Perm bs) (single : (as.map Prod.fst).Nodup)
    (ha : as.Pairwise fun a b => a.1 ≤ b.1) (hb : bs.Pairwise fun a b => a.1 ≤ b.1) : as = bs := by
  refine List.Perm.eq_of_pairwise (fun a b own other le ge => ?_) ha hb perm
  exact List.inj_on_of_nodup_map single own (perm.mem_iff.mpr other) (String.le_antisymm le ge)

theorem sortFields_congr {as bs : List (String × α)} (perm : as.Perm bs)
    (single : (as.map Prod.fst).Nodup) : sortFields as = sortFields bs := by
  have sorted := ((sortFields_perm as).trans perm).trans (sortFields_perm bs).symm
  have names : ((sortFields as).map Prod.fst).Nodup :=
    ((sortFields_perm as).map Prod.fst).nodup_iff.mpr single
  exact eq_of_sorted sorted names (sortFields_sorted as) (sortFields_sorted bs)

end Order

mutual
/-- A datum with the members of each record in the order of their names. -/
def arranged : Datum → Datum
  | .list items => .list (arrangedItems items)
  | .record fields => .record (sortFields (arrangedFields fields))
  | d => d

def arrangedItems : List Datum → List Datum
  | [] => []
  | d :: rest => arranged d :: arrangedItems rest

def arrangedFields : List (String × Datum) → List (String × Datum)
  | [] => []
  | (name, d) :: rest => (name, arranged d) :: arrangedFields rest
end

theorem arranged_atom {d : Datum} (plain : d.isAtom = true) : arranged d = d := by
  cases d with
  | list | record => cases plain
  | _ => rfl

@[simp] theorem arranged_list (items : List Datum) : arranged (.list items) = .list (items.map arranged) := by
  have each : arrangedItems items = items.map arranged := by
    induction items with
    | nil => rfl
    | cons d rest ih => rw [arrangedItems, ih, List.map_cons]
  rw [arranged, each]

@[simp] theorem arranged_record (fields : Fields) :
    arranged (.record fields) = .record ((sortFields fields).map fun m => (m.1, arranged m.2)) := by
  have each : arrangedFields fields = fields.map fun m => (m.1, arranged m.2) := by
    induction fields with
    | nil => rfl
    | cons m rest ih => rw [arrangedFields, ih, List.map_cons]
  rw [arranged, each, sortFields_map]

/-! ## What is written -/

def textOf (d : Datum) : List Char := (write d).toList

def memberText : String × Datum → List Char := fun m => (string m.1).toList ++ ':' :: textOf m.2

def joined {α : Type} (text : α → List Char) (parts : List α) : List Char := [','].intercalate (parts.map text)

section Joined

variable {α : Type} (text : α → List Char)

@[simp] theorem joined_nil : joined text [] = [] := rfl

@[simp] theorem joined_single (a : α) : joined text [a] = text a := by simp [joined]

@[simp] theorem joined_cons_cons (a b : α) (rest : List α) :
    joined text (a :: b :: rest) = text a ++ ',' :: joined text (b :: rest) := by
  simp [joined]

theorem exists_joined_cons {a : α} {c : Char} {s : List Char} (h : text a = c :: s) (rest : List α) :
    ∃ t, joined text (a :: rest) = c :: t := by
  cases rest with
  | nil => exact ⟨s, (joined_single text a).trans h⟩
  | cons b rest =>
    rw [joined_cons_cons, h]
    exact ⟨_, rfl⟩

end Joined

theorem textOf_list (items : List Datum) : textOf (.list items) = '[' :: (joined textOf items ++ [']']) := by
  have each : writeItems items = items.map write := by
    induction items with
    | nil => rfl
    | cons d rest ih => rw [writeItems, ih, List.map_cons]
  have texts : textOf = fun d => (write d).toList := rfl
  rw [textOf, write, each]
  simp [joined, Function.comp_def, texts]

theorem textOf_record (fields : Fields) :
    textOf (.record fields) = '\x7b' :: (joined memberText (sortFields fields) ++ ['\x7d']) := by
  have each : writeFields fields = fields.map fun m => (m.1, write m.2) := by
    induction fields with
    | nil => rfl
    | cons m rest ih => rw [writeFields, ih, List.map_cons]
  have texts : memberText = fun m => (string m.1).toList ++ ':' :: (write m.2).toList := rfl
  rw [textOf, write, each, sortFields_map]
  simp [joined, Function.comp_def, texts]

theorem joined_map {α β : Type} (text : β → List Char) (f : α → β) (parts : List α) :
    joined text (parts.map f) = joined (fun a => text (f a)) parts := by
  rw [joined, List.map_map]
  rfl

theorem joined_congr {α : Type} {text text' : α → List Char} {parts : List α}
    (h : ∀ a ∈ parts, text a = text' a) : joined text parts = joined text' parts := by
  rw [joined, joined, List.map_congr_left h]

/-- An arranged datum is written as it was before. -/
theorem write_arranged (d : Datum) : write (arranged d) = write d := by
  suffices same : textOf (arranged d) = textOf d from String.toList_injective same
  induction d using Datum.byParts with
  | atom d plain => rw [arranged_atom plain]
  | list items ih => rw [arranged_list, textOf_list, textOf_list, joined_map, joined_congr ih]
  | record fields ih =>
    have sorted := sortFields_of_sorted (sortFields_sorted fields)
    have each : ∀ m ∈ sortFields fields, memberText (m.1, arranged m.2) = memberText m := by
      intro m hm
      have value := ih m ((sortFields_perm fields).mem_iff.mp hm)
      simp only [memberText, value]
    rw [arranged_record, textOf_record, textOf_record, sortFields_map, sorted, joined_map,
      joined_congr each]

/-- Where the text of a datum begins, nothing ends and no blank stands. -/
def IsFirst (c : Char) : Prop := c ∉ [']', '\x7d', ' ', '\t', '\n', '\r', Char.ofNat 0xfeff]

instance : DecidablePred IsFirst := fun c =>
  inferInstanceAs (Decidable (c ∉ [']', '\x7d', ' ', '\t', '\n', '\r', Char.ofNat 0xfeff]))

theorem IsFirst.isSpace {c : Char} (h : IsFirst c) : isSpace c = false := by
  simp only [IsFirst, List.mem_cons, List.not_mem_nil, or_false, not_or] at h
  simp [Json.isSpace, h]

theorem exists_isFirst {d : Datum} (h : d.Each Legible) :
    ∃ c s, textOf d = c :: s ∧ IsFirst c := by
  cases h with
  | atom plain legible =>
    obtain ⟨c, s, text, other⟩ := exists_write_cons legible
    refine ⟨c, s, text, fun h => other ?_⟩
    simp only [List.mem_cons, List.not_mem_nil, or_false] at h ⊢
    tauto
  | @list items each => exact ⟨'[', _, textOf_list items, by decide⟩
  | @record fields each => exact ⟨'\x7b', _, textOf_record fields, by decide⟩

/-! ## Reading it back -/

theorem skipSpace_cons {c : Char} (h : isSpace c = false) (position : Nat) (s : List Char) :
    Cursor.skipSpace ⟨position, c :: s⟩ = ⟨position, c :: s⟩ := by
  have none : (c :: s).takeWhile isSpace = [] := List.takeWhile_cons_of_neg (by simp [h])
  rw [Cursor.skipSpace, none]
  rfl

theorem drop_cons (c : Char) (position : Nat) (s : List Char) :
    Cursor.drop ⟨position, c :: s⟩ 1 = ⟨position + 1, s⟩ := rfl

/-- A datum is read from its text, whatever may follow that, with fuel for twice its length and room for
as many brackets. -/
def IsRead (d : Datum) : Prop :=
  ∀ (position fuel room : Nat) (after : List Char), Ends after → 2 * (textOf d).length ≤ fuel + 1 →
    (textOf d).length ≤ room →
      ∃ position', value fuel room ⟨position, textOf d ++ after⟩ = .ok (arranged d, ⟨position', after⟩)

/-- What has no parts needs no room. -/
theorem value_of_legible {d : Datum} (plain : d.isAtom = true) (h : Legible d)
    (position fuel room : Nat) {after : List Char} (ends : Ends after) (enough : 2 * (textOf d).length ≤ fuel + 1) :
    ∃ position', value fuel room ⟨position, textOf d ++ after⟩ = .ok (arranged d, ⟨position', after⟩) := by
  obtain ⟨c, s, text, other⟩ := exists_write_cons h
  obtain ⟨position', read⟩ := scalar_write h position ends
  rw [textOf, text] at enough ⊢
  obtain ⟨fuel, rfl⟩ : ∃ n, fuel = n + 1 := ⟨fuel - 1, by
    rw [List.length_cons] at enough
    omega⟩
  refine ⟨position', ?_⟩
  rw [text, List.cons_append] at read
  rw [List.cons_append, arranged_atom plain, ← read]
  simp only [List.mem_cons, List.not_mem_nil, or_false, not_or] at other
  unfold value
  split
  next eq => exact absurd (List.cons.inj eq).1 other.1
  next eq => exact absurd (List.cons.inj eq).1 other.2.2.1
  next => rfl

theorem isRead_of_legible {d : Datum} (plain : d.isAtom = true) (h : Legible d) : IsRead d :=
  fun position fuel room _ ends enough _ => value_of_legible plain h position fuel room ends enough

section Items

variable {ds : List Datum} (legible : ∀ d ∈ ds, d.Each Legible) (each : ∀ d ∈ ds, IsRead d)

include legible in
theorem exists_items_cons (some : ds ≠ []) : ∃ c s, joined textOf ds = c :: s ∧ IsFirst c := by
  obtain ⟨d, rest, rfl⟩ := List.exists_cons_of_ne_nil some
  obtain ⟨c, s, text, first⟩ := exists_isFirst (legible d List.mem_cons_self)
  obtain ⟨t, start⟩ := exists_joined_cons textOf text rest
  exact ⟨c, t, start, first⟩

include legible each in
/-- Items are read up to the bracket that closes them. -/
theorem items_joined (some : ds ≠ []) (position fuel room : Nat) (after : List Char)
    (enough : 2 * (joined textOf ds).length ≤ fuel) (deep : (joined textOf ds).length ≤ room) :
    ∃ position', items fuel room ⟨position, joined textOf ds ++ ']' :: after⟩ =
      .ok (ds.map arranged, ⟨position', after⟩) := by
  induction ds generalizing position fuel with
  | nil => exact absurd rfl some
  | cons d rest ih =>
    obtain ⟨c, s, start, -⟩ := exists_items_cons legible some
    obtain ⟨fuel, rfl⟩ : ∃ n, fuel = n + 1 := ⟨fuel - 1, by
      rw [start, List.length_cons] at enough
      omega⟩
    have here := each d List.mem_cons_self
    cases rest with
    | nil =>
      rw [joined_single] at enough deep ⊢
      obtain ⟨position₁, read⟩ := here position fuel room (']' :: after) (ends_cons (by decide) after)
        enough deep
      refine ⟨position₁ + 1, ?_⟩
      rw [items, read, ok_bind]
      simp only [skipSpace_cons (c := ']') rfl]
      rfl
    | cons d' rest =>
      have legible' := fun d hd => legible d (List.mem_cons_of_mem _ hd)
      have each' := fun d hd => each d (List.mem_cons_of_mem _ hd)
      obtain ⟨c', s', start', first⟩ := exists_items_cons legible' (List.cons_ne_nil _ _)
      rw [joined_cons_cons, List.length_append, List.length_cons] at enough deep
      obtain ⟨position₁, read⟩ := here position fuel room
        (',' :: (joined textOf (d' :: rest) ++ ']' :: after)) (ends_cons (by decide) _) (by omega) (by omega)
      obtain ⟨position₂, others⟩ := ih legible' each' (List.cons_ne_nil _ _) (position₁ + 1) fuel (by omega)
        (by omega)
      refine ⟨position₂, ?_⟩
      rw [start', List.cons_append] at read others
      rw [joined_cons_cons, List.append_assoc, List.cons_append, start', List.cons_append, items, read, ok_bind]
      simp only [skipSpace_cons (c := ',') rfl, drop_cons,
        skipSpace_cons first.isSpace, others, ok_bind]
      rfl

include legible each in
theorem isRead_list : IsRead (.list ds) := by
  intro position fuel room after ends enough deep
  rw [textOf_list, List.length_cons, List.length_append, List.length_singleton] at enough deep
  obtain ⟨fuel, rfl⟩ : ∃ n, fuel = n + 1 := ⟨fuel - 1, by omega⟩
  obtain ⟨room, rfl⟩ : ∃ n, room = n + 1 := ⟨room - 1, by omega⟩
  rw [textOf_list, arranged_list, List.cons_append, List.append_assoc, List.singleton_append, value]
  by_cases none : ds = []
  · subst none
    exact ⟨position + 2, rfl⟩
  · obtain ⟨c, s, start, first⟩ := exists_items_cons legible none
    obtain ⟨position', read⟩ :=
      items_joined legible each none (position + 1) fuel room after (by omega) (by omega)
    refine ⟨position', ?_⟩
    rw [start, List.cons_append] at read ⊢
    simp only [drop_cons, skipSpace_cons first.isSpace]
    split
    next eq => exact absurd (List.mem_cons.mpr (.inl (List.cons.inj eq).1)) first
    next => rw [read, ok_bind]

end Items

/-- Reading goes on after a member: the object ends, or more members follow. -/
def membersAfter (fuel room : Nat) (member : String × Datum) (c : Cursor) :
    Except Fault (Fields × Cursor) :=
  match c.skipSpace.rest with
  | '\x7d' :: _ => .ok ([member], c.skipSpace.drop 1)
  | ',' :: _ => do
    let (rest, c) ← members fuel room (c.skipSpace.drop 1).skipSpace
    .ok (member :: rest, c)
  | _ => c.skipSpace.fail .comma

/-- A name, a colon and a value are read as a member. -/
theorem members_member {m : String × Datum} (legible : m.2.Each Legible) (each : IsRead m.2)
    (position fuel room : Nat) {after : List Char} (ends : Ends after)
    (enough : 2 * (memberText m).length ≤ fuel + 1) (deep : (memberText m).length ≤ room) :
    ∃ position', members (fuel + 1) room ⟨position, memberText m ++ after⟩ =
      membersAfter fuel room (m.1, arranged m.2) ⟨position', after⟩ := by
  obtain ⟨c, t, text, first⟩ := exists_isFirst legible
  obtain ⟨position₁, named⟩ := stringFrom_string m.1 position (':' :: (textOf m.2 ++ after))
  simp only [memberText, List.length_append, List.length_cons] at enough deep
  obtain ⟨position₂, read⟩ := each (position₁ + 1) fuel room after ends (by omega) (by omega)
  refine ⟨position₂, ?_⟩
  simp only [memberText, List.append_assoc, List.cons_append]
  rw [string_toList, List.cons_append] at named ⊢
  rw [text, List.cons_append] at named read ⊢
  simp only [members, named, ok_bind, skipSpace_cons (c := ':') rfl]
  simp only [drop_cons, skipSpace_cons first.isSpace, read, ok_bind]
  rfl

section Members

variable {fields : Fields} (legible : ∀ m ∈ fields, m.2.Each Legible) (each : ∀ m ∈ fields, IsRead m.2)

theorem exists_members_cons (some : fields ≠ []) : ∃ s, joined memberText fields = '"' :: s := by
  obtain ⟨m, rest, rfl⟩ := List.exists_cons_of_ne_nil some
  refine exists_joined_cons memberText (s := m.1.toList.flatMap escaped ++ '"' :: ':' :: textOf m.2) ?_ rest
  simp [memberText, string_toList]

include legible each in
/-- Members are read up to the brace that closes them. -/
theorem members_joined (some : fields ≠ []) (position fuel room : Nat) (after : List Char)
    (enough : 2 * (joined memberText fields).length ≤ fuel)
    (deep : (joined memberText fields).length ≤ room) :
    ∃ position', members fuel room ⟨position, joined memberText fields ++ '\x7d' :: after⟩ =
      .ok (fields.map fun m => (m.1, arranged m.2), ⟨position', after⟩) := by
  induction fields generalizing position fuel with
  | nil => exact absurd rfl some
  | cons m rest ih =>
    obtain ⟨s, start⟩ := exists_members_cons some
    obtain ⟨fuel, rfl⟩ : ∃ n, fuel = n + 1 := ⟨fuel - 1, by
      rw [start, List.length_cons] at enough
      omega⟩
    have member := members_member (m := m) (legible m List.mem_cons_self) (each m List.mem_cons_self)
    cases rest with
    | nil =>
      rw [joined_single] at enough deep ⊢
      obtain ⟨position₁, read⟩ :=
        member position fuel room (ends_cons (c := '\x7d') (by decide) after) enough deep
      refine ⟨position₁ + 1, ?_⟩
      rw [read]
      simp only [membersAfter, skipSpace_cons (c := '\x7d') rfl]
      rfl
    | cons m' rest =>
      have legible' := fun m hm => legible m (List.mem_cons_of_mem _ hm)
      have each' := fun m hm => each m (List.mem_cons_of_mem _ hm)
      obtain ⟨s', start'⟩ := exists_members_cons (List.cons_ne_nil m' rest)
      rw [joined_cons_cons, List.length_append, List.length_cons] at enough deep
      obtain ⟨position₁, read⟩ := member position fuel room (ends_cons (c := ',') (by decide)
        (joined memberText (m' :: rest) ++ '\x7d' :: after)) (by omega) (by omega)
      obtain ⟨position₂, others⟩ := ih legible' each' (List.cons_ne_nil _ _) (position₁ + 1) fuel (by omega)
        (by omega)
      refine ⟨position₂, ?_⟩
      rw [start', List.cons_append] at read others
      rw [joined_cons_cons, List.append_assoc, List.cons_append, start', List.cons_append, read]
      simp only [membersAfter, skipSpace_cons (c := ',') rfl, drop_cons,
        skipSpace_cons (c := '"') rfl, others, ok_bind]
      rfl

include legible each in
theorem isRead_record (single : (fields.map Prod.fst).Nodup) : IsRead (.record fields) := by
  intro position fuel room after ends enough deep
  have perm := sortFields_perm fields
  rw [textOf_record, List.length_cons, List.length_append, List.length_singleton] at enough deep
  obtain ⟨fuel, rfl⟩ : ∃ n, fuel = n + 1 := ⟨fuel - 1, by omega⟩
  obtain ⟨room, rfl⟩ : ∃ n, room = n + 1 := ⟨room - 1, by omega⟩
  rw [textOf_record, arranged_record, List.cons_append, List.append_assoc, List.singleton_append, value]
  by_cases none : sortFields fields = []
  · rw [none]
    exact ⟨position + 2, rfl⟩
  · obtain ⟨s, start⟩ := exists_members_cons none
    obtain ⟨position', read⟩ := members_joined (fun m hm => legible m (perm.mem_iff.mp hm))
      (fun m hm => each m (perm.mem_iff.mp hm)) none (position + 1) fuel room after (by omega) (by omega)
    refine ⟨position', ?_⟩
    have names : (((sortFields fields).map fun m => (m.1, arranged m.2)).map Prod.fst).Nodup := by
      rw [List.map_map]
      exact (perm.map Prod.fst).nodup_iff.mpr single
    rw [start, List.cons_append] at read ⊢
    simp only [drop_cons, skipSpace_cons (c := '"') rfl, read, ok_bind,
      ofMembers_of_nodup names]
    rfl

end Members

/-- What is written for a datum is read from its text. -/
theorem isRead {d : Datum} (legible : d.Each Legible) (single : d.Distinct id) : IsRead d := by
  induction d using Datum.byParts with
  | atom d plain => exact isRead_of_legible plain ((Datum.each_atom plain).mp legible)
  | list items ih =>
    have each := Datum.each_list.mp legible
    exact isRead_list each fun d hd => ih d hd (each d hd) (single.items d hd)
  | record fields ih =>
    have each := Datum.each_record.mp legible
    obtain ⟨names, distinct⟩ := single.fields
    exact isRead_record each (fun m hm => ih m hm (each m hm) (distinct m hm)) names

/-- A whole text is read as its value is, where nothing but that stands in it. -/
theorem readWithin_write {d : Datum} (legible : d.Each Legible) {room position : Nat}
    (whole : value (2 * (textOf d).length + 1) room ⟨0, textOf d⟩ = .ok (arranged d, ⟨position, []⟩)) :
    readWithin room (write d).toList = .ok (arranged d) := by
  obtain ⟨c, s, text, first⟩ := exists_isFirst legible
  have mark : (textOf d).head? ≠ some (Char.ofNat 0xfeff) := by
    rw [text]
    exact fun eq => first (by simp [Option.some.inj eq])
  have skip : Cursor.skipSpace ⟨0, textOf d⟩ = ⟨0, textOf d⟩ := by
    rw [text]
    exact skipSpace_cons first.isSpace 0 s
  change readWithin room (textOf d) = _
  rw [readWithin, if_neg mark, skip, whole]
  rfl

/-- What is written is read back, with the members in order. -/
theorem read_write_arranged {d : Datum} (legible : d.Each Legible) (single : d.Distinct id) :
    read (write d).toList = .ok (arranged d) := by
  obtain ⟨position, whole⟩ := isRead legible single 0 (2 * (textOf d).length + 1) (textOf d).length []
    ends_nil (by omega) le_rfl
  rw [List.append_nil] at whole
  exact readWithin_write legible whole

/-- What is written on a line of code is read back, whatever the room. -/
theorem read_write {d : Datum} (h : Legible d) (room : Nat) :
    readWithin room (write d).toList = .ok d := by
  have plain : d.isAtom = true := by
    cases d with
    | list | record => cases h
    | _ => rfl
  obtain ⟨position, whole⟩ := value_of_legible plain h 0 (2 * (textOf d).length + 1) room
    ends_nil (by omega)
  rw [List.append_nil] at whole
  rw [readWithin_write (.atom plain h) whole, arranged_atom plain]

end Json

end Covenant
