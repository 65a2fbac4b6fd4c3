import Covenant.Proofs.Json.Canonical
/-!
Data that are made of texts alone, as descriptions are.

* `Datum.Worded`: no other values occur, and all texts and names of members have a property;
* `alike_of_canonical_eq`: where canonical text leaves all texts as they are, it tells such data apart but
  for the order of members;
* `Datum.Alike.members`: members of one name are alike in records that are.
-/

namespace Covenant

/-- A datum without numbers, flags and bytes, whose texts and names have a property. -/
inductive Datum.Worded (P : String → Prop) : Datum → Prop
  | null : Worded P .null
  | text {s : String} (h : P s) : Worded P (.text s)
  | list {items : List Datum} (each : ∀ d ∈ items, Worded P d) : Worded P (.list items)
  | record {fields : Fields} (names : ∀ m ∈ fields, P m.1) (each : ∀ m ∈ fields, Worded P m.2) :
    Worded P (.record fields)

namespace Datum

variable {P : String → Prop}

@[simp] theorem worded_text {s : String} : (text s).Worded P ↔ P s := by
  refine ⟨fun h => ?_, .text⟩
  cases h with
  | text h => exact h

@[simp] theorem worded_list {items : List Datum} : (list items).Worded P ↔ ∀ d ∈ items, d.Worded P := by
  refine ⟨fun h => ?_, .list⟩
  cases h with
  | list each => exact each

@[simp] theorem worded_record {fields : Fields} :
    (record fields).Worded P ↔ ∀ m ∈ fields, P m.1 ∧ m.2.Worded P := by
  refine ⟨fun h => ?_, fun h => .record (fun m hm => (h m hm).1) fun m hm => (h m hm).2⟩
  cases h with
  | record names each => exact fun m hm => ⟨names m hm, each m hm⟩

theorem Worded.imp {Q : String → Prop} (imp : ∀ s, P s → Q s) {d : Datum} (h : d.Worded P) : d.Worded Q := by
  induction h with
  | null => exact .null
  | text h => exact .text (imp _ h)
  | list _ ih => exact .list ih
  | record names _ ih => exact .record (fun m hm => imp _ (names m hm)) ih

/-- What is so of null and of all texts is so of each part. -/
theorem Worded.toEach {Q : Datum → Prop} (null : Q .null) (text : ∀ s, Q (.text s)) {d : Datum}
    (h : d.Worded P) : d.Each Q := by
  induction h with
  | null => exact .atom rfl null
  | text => exact .atom rfl (text _)
  | list _ ih => exact .list ih
  | record _ _ ih => exact .record ih

theorem Worded.each_legible {d : Datum} (h : d.Worded P) : d.Each Json.Legible :=
  h.toEach trivial fun _ => trivial

theorem Worded.each_isScalar {d : Datum} (h : d.Worded P) : d.Each Json.IsScalar :=
  h.toEach trivial fun _ => trivial

/-! ## Parts of data that are alike -/

namespace Alike

theorem text_eq {s t : String} (h : (Datum.text s).Alike id (.text t)) : s = t := by
  cases h with
  | atom => rfl
  | text same => exact same

theorem items {items others : List Datum} (h : (Datum.list items).Alike id (.list others)) :
    List.Forall₂ (Alike id) items others := by
  cases h with
  | atom plain => cases plain
  | list each => exact each

/-- Members of one name are alike. -/
theorem member (name : String) {d e x y : Datum} (h : d.Alike id e) (single : d.Distinct id)
    (hx : d.member name = .ok x) (hy : e.member name = .ok y) : x.Alike id y := by
  obtain ⟨fields, rfl, first⟩ := exists_of_member hx
  obtain ⟨others, rfl, second⟩ := exists_of_member hy
  cases h with
  | atom plain => cases plain
  | record order names values =>
    -- the records hold their members in orders of their own: the partner is found in the one that is
    -- beside the first record, and is the first member of its name because no other has it
    obtain ⟨m, beside⟩ := exists_beside values.length_eq (order.mem_iff.mpr (mem_of_lookup second))
    have same : m.1 = name := List.forall₂_zip (forall₂_of_map_eq names) beside
    have alike : m.2.Alike id y := List.forall₂_zip values beside
    have own : (name, m.2) ∈ fields := by
      rw [← same]
      exact (List.of_mem_zip beside).1
    have found := lookup_of_mem single.fields.1 own
    rw [first, Option.some.injEq] at found
    exact found ▸ alike

end Alike

end Datum

namespace Json

variable {form : String → String} {d e : Datum}

/-- Canonical text is that of the data themselves where they have all texts in the right form. -/
theorem normalize_of_worded (h : d.Worded fun s => form s = s) : normalize form d = normalize id d := by
  induction h with
  | null => rfl
  | text h => exact congrArg Datum.text h
  | list _ ih => rw [normalize_list, normalize_list, List.map_congr_left ih]
  | record names _ ih =>
    rw [normalize_record, normalize_record]
    congr 2
    refine List.map_congr_left fun m hm => ?_
    have own := (sortFields_perm _).mem_iff.mp hm
    rw [names m own, ih m own, id_eq]

theorem Candidate.ofItems_eq (items : List Datum) : ofItems items = items.map ofDatum := by
  induction items with
  | nil => rfl
  | cons d rest ih => rw [ofItems, ih, List.map_cons]

theorem Candidate.ofFields_eq (fields : Fields) :
    ofFields fields = fields.map fun m => (.text m.1, ofDatum m.2) := by
  induction fields with
  | nil => rfl
  | cons m rest ih => rw [ofFields, ih, List.map_cons]

/-- Data of texts are taken for what they are. -/
theorem denotes_of_worded {P : String → Prop} (h : d.Worded P) : (Candidate.ofDatum d).Denotes d := by
  induction h with
  | null => exact .null
  | text => exact .text _
  | list _ ih =>
    rw [Candidate.ofDatum, Candidate.ofItems_eq]
    exact .sequence (List.forall₂_map_left_iff.mpr (List.forall₂_same.mpr ih))
  | record _ _ ih =>
    rw [Candidate.ofDatum, Candidate.ofFields_eq]
    refine .record ?_ (List.forall₂_map_left_iff.mpr (List.forall₂_same.mpr ih))
    rw [List.map_map]
    rfl

theorem isWritten_of_worded {P : String → Prop} (h : d.Worded P) : isWritten (normalize form d) = true :=
  (isWritten_iff (each_normalize (fun _ => trivial) h.each_isScalar)).mpr
    (each_normalize (fun _ => trivial) h.each_legible)

/-- Data of texts have a canonical text. -/
theorem canonicalText_of_worded {P : String → Prop} (h : d.Worded P) :
    canonicalText form (.ofDatum d) = .ok (write (normalize form d)) := by
  rw [canonicalText_of_denotes (denotes_of_worded h), if_pos (isWritten_of_worded h)]

/-- What that is read as. -/
theorem read_of_worded {P : String → Prop} (h : d.Worded P) :
    read (write (normalize form d)).toList = .ok (formed form d) :=
  read_write_normalize h.each_isScalar (isWritten_of_worded h)

/-- Data of texts that are all in the right form, and of which no two members have one name, have the same
canonical text only if they are alike. -/
theorem alike_of_canonical_eq (hd : d.Worded fun s => form s = s) (he : e.Worded fun s => form s = s)
    (distinct : d.Distinct id) (distinct' : e.Distinct id)
    (same : write (normalize form d) = write (normalize form e)) : d.Alike id e := by
  rw [normalize_of_worded hd, normalize_of_worded he] at same
  have first : read (write (normalize id d)).toList = .ok (formed id d) := read_of_worded hd
  have second : read (write (normalize id e)).toList = .ok (formed id e) := read_of_worded he
  rw [same] at first
  exact alike_of_formed_eq distinct distinct' (Except.ok.inj (first.symm.trans second))

end Json

end Covenant
