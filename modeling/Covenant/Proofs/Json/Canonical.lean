import Covenant.Json.Canonical
import Covenant.Proofs.Json.Nested
import Mathlib.Data.List.Perm.Basic
/-!
Canonical JSON text tells apart what is different, and nothing else.

* `Candidate.Denotes`: the plain data that a candidate is, `Candidate.HasUnfit` what keeps one from being such;
* `Datum.Alike`: data that are the same but for the forms of texts and the order of members;
* `formed`: what canonical text is read as, which is one for data that are alike (`alike_of_formed_eq`,
  `formed_eq_of_alike`) and for no others;
* `canonical_text_identifies`: texts are the same where data are alike, unless names in one record meet.
-/

namespace Covenant

/-- Data that are the same but for the forms of texts and names and the order of members. -/
inductive Datum.Alike (form : String → String) : Datum → Datum → Prop
  | atom {d : Datum} (plain : d.isAtom = true) : Alike form d d
  | text {s t : String} (same : form s = form t) : Alike form (.text s) (.text t)
  | list {items others : List Datum} (each : List.Forall₂ (Alike form) items others) :
    Alike form (.list items) (.list others)
  | record {fields others reordered : Fields} (order : reordered.Perm others)
      (names : (fields.map fun m => form m.1) = reordered.map fun m => form m.1)
      (values : List.Forall₂ (fun m n => Alike form m.2 n.2) fields reordered) :
    Alike form (.record fields) (.record others)

namespace Json

/-! ## Candidates and the data that they are -/

namespace Candidate

/-- The plain data that a candidate is: sequences of both kinds are lists. -/
inductive Denotes : Candidate → Datum → Prop
  | null : Denotes .null .null
  | boolean (b : Bool) : Denotes (.boolean b) (.boolean b)
  | integer (i : Int) : Denotes (.integer i) (.integer i)
  | text (s : String) : Denotes (.text s) (.text s)
  | sequence {fixed : Bool} {items : List Candidate} {data : List Datum}
      (each : List.Forall₂ Denotes items data) : Denotes (.sequence fixed items) (.list data)
  | record {members : List (MemberName × Candidate)} {fields : Fields}
      (names : members.map Prod.fst = fields.map fun f => .text f.1)
      (values : List.Forall₂ (fun m f => Denotes m.2 f.2) members fields) :
    Denotes (.record members) (.record fields)

/-- A double, a value that is no JSON value or a name that is no text occurs in a candidate. -/
inductive HasUnfit : Candidate → Prop
  | float (x : Double) : HasUnfit (.float x)
  | foreign (kind : String) : HasUnfit (.foreign kind)
  | item {fixed : Bool} {items : List Candidate} {c : Candidate} (own : c ∈ items) (unfit : HasUnfit c) :
    HasUnfit (.sequence fixed items)
  | name {members : List (MemberName × Candidate)} {kind : String} {c : Candidate}
      (own : (.foreign kind, c) ∈ members) : HasUnfit (.record members)
  | value {members : List (MemberName × Candidate)} {m : MemberName × Candidate} (own : m ∈ members)
      (unfit : HasUnfit m.2) : HasUnfit (.record members)

mutual
/-- Candidates are made of scalars, sequences and records. -/
theorem byParts {P : Candidate → Prop}
    (scalar : ∀ c, (∀ fixed items, c ≠ .sequence fixed items) → (∀ members, c ≠ .record members) → P c)
    (sequence : ∀ fixed items, (∀ c ∈ items, P c) → P (.sequence fixed items))
    (record : ∀ members, (∀ m ∈ members, P m.2) → P (.record members)) : ∀ c, P c
  | .sequence fixed items => sequence fixed items (byItems scalar sequence record items)
  | .record members => record members (byMembers scalar sequence record members)
  | .null | .boolean _ | .integer _ | .float _ | .text _ | .foreign _ => scalar _ nofun nofun

theorem byItems {P : Candidate → Prop}
    (scalar : ∀ c, (∀ fixed items, c ≠ .sequence fixed items) → (∀ members, c ≠ .record members) → P c)
    (sequence : ∀ fixed items, (∀ c ∈ items, P c) → P (.sequence fixed items))
    (record : ∀ members, (∀ m ∈ members, P m.2) → P (.record members)) :
    ∀ items : List Candidate, ∀ c ∈ items, P c
  | [], _, h => nomatch h
  | first :: rest, c, h => (List.mem_cons.mp h).elim (fun same => same ▸ byParts scalar sequence record first)
      (byItems scalar sequence record rest c)

theorem byMembers {P : Candidate → Prop}
    (scalar : ∀ c, (∀ fixed items, c ≠ .sequence fixed items) → (∀ members, c ≠ .record members) → P c)
    (sequence : ∀ fixed items, (∀ c ∈ items, P c) → P (.sequence fixed items))
    (record : ∀ members, (∀ m ∈ members, P m.2) → P (.record members)) :
    ∀ members : List (MemberName × Candidate), ∀ m ∈ members, P m.2
  | [], _, h => nomatch h
  | (_, first) :: rest, m, h =>
    (List.mem_cons.mp h).elim (fun same => same ▸ byParts scalar sequence record first)
      (byMembers scalar sequence record rest m)
end

/-- Refused for what a candidate is, not for the length of a number. -/
def IsRefused {α : Type} (r : Except Unfit α) : Prop := ∃ why, why ≠ .tooLong ∧ r = .error why

theorem IsRefused.bind {α β : Type} {r : Except Unfit α} (h : IsRefused r) (f : α → Except Unfit β) :
    IsRefused (r >>= f) := by
  obtain ⟨why, kind, rfl⟩ := h
  exact ⟨why, kind, rfl⟩

/-- A candidate is taken for the datum that it is, or it is refused and has something unfit in it. -/
def IsTaken (c : Candidate) : Prop := ∀ path, (∃ d, c.datum path = .ok d ∧ c.Denotes d) ∨
  IsRefused (c.datum path) ∧ c.HasUnfit

theorem itemData_cases {items : List Candidate} (each : ∀ c ∈ items, IsTaken c) (path : String) (i : Nat) :
    (∃ data, itemData path i items = .ok data ∧ List.Forall₂ Denotes items data) ∨
      IsRefused (itemData path i items) ∧ ∃ c ∈ items, c.HasUnfit := by
  induction items generalizing i with
  | nil => exact .inl ⟨[], rfl, .nil⟩
  | cons c rest ih =>
    rw [List.forall_mem_cons] at each
    rw [itemData]
    rcases each.1 (itemPath path i) with ⟨d, here, is⟩ | ⟨refused, unfit⟩
    · rw [here, ok_bind]
      rcases ih each.2 (i + 1) with ⟨data, others, are⟩ | ⟨refused, c', own, unfit⟩
      · exact .inl ⟨d :: data, by rw [others]; rfl, .cons is are⟩
      · exact .inr ⟨refused.bind _, c', List.mem_cons_of_mem _ own, unfit⟩
    · exact .inr ⟨refused.bind _, c, List.mem_cons_self, unfit⟩

theorem memberData_cases {members : List (MemberName × Candidate)} (each : ∀ m ∈ members, IsTaken m.2)
    (path : String) : (∃ fields : Fields, memberData path members = .ok fields ∧
        members.map Prod.fst = (fields.map fun f => MemberName.text f.1) ∧
        List.Forall₂ (fun m f => Denotes m.2 f.2) members fields) ∨
      IsRefused (memberData path members) ∧ (record members).HasUnfit := by
  induction members with
  | nil => exact .inl ⟨[], rfl, rfl, .nil⟩
  | cons m rest ih =>
    obtain ⟨name, c⟩ := m
    cases name with
    | foreign kind => exact .inr ⟨⟨.name path kind, nofun, rfl⟩, .name List.mem_cons_self⟩
    | text name =>
      rw [List.forall_mem_cons] at each
      rw [memberData]
      rcases each.1 (memberPath path name) with ⟨d, here, is⟩ | ⟨refused, unfit⟩
      · rw [here, ok_bind]
        rcases ih each.2 with ⟨fields, others, names, are⟩ | ⟨refused, unfit⟩
        · exact .inl ⟨(name, d) :: fields, by rw [others]; rfl, congrArg _ names, .cons is are⟩
        · refine .inr ⟨refused.bind _, ?_⟩
          cases unfit with
          | name own => exact .name (List.mem_cons_of_mem _ own)
          | value own unfit => exact .value (List.mem_cons_of_mem _ own) unfit
      · exact .inr ⟨refused.bind _, .value List.mem_cons_self unfit⟩

theorem isTaken (c : Candidate) : IsTaken c := by
  induction c using byParts with
  | scalar c list record =>
    intro path
    cases c with
    | null => exact .inl ⟨_, rfl, .null⟩
    | boolean b => exact .inl ⟨_, rfl, .boolean b⟩
    | integer i => exact .inl ⟨_, rfl, .integer i⟩
    | text s => exact .inl ⟨_, rfl, .text s⟩
    | float x => exact .inr ⟨⟨.float path, nofun, rfl⟩, .float x⟩
    | foreign kind => exact .inr ⟨⟨.foreign path kind, nofun, rfl⟩, .foreign kind⟩
    | sequence fixed items => exact absurd rfl (list fixed items)
    | record members => exact absurd rfl (record members)
  | sequence fixed items ih =>
    intro path
    rw [datum]
    rcases itemData_cases ih path 0 with ⟨data, all, are⟩ | ⟨refused, c, own, unfit⟩
    · exact .inl ⟨.list data, by rw [all]; rfl, .sequence are⟩
    · exact .inr ⟨refused.bind _, .item own unfit⟩
  | record members ih =>
    intro path
    rw [datum]
    rcases memberData_cases ih path with ⟨fields, all, names, are⟩ | ⟨refused, unfit⟩
    · exact .inl ⟨.record fields, by rw [all]; rfl, .record names are⟩
    · exact .inr ⟨refused.bind _, unfit⟩

/-- What is a plain datum has nothing unfit in it. -/
theorem Denotes.not_hasUnfit {c : Candidate} {d : Datum} (h : c.Denotes d) : ¬ c.HasUnfit := by
  intro unfit
  induction unfit generalizing d with
  | float | foreign => cases h
  | @item fixed items c own unfit ih =>
    cases h with
    | sequence each =>
      obtain ⟨d, -, is⟩ := exists_of_forall₂ each.flip own
      exact ih is
  | @name members kind c own =>
    cases h with
    | @record _ fields names values =>
      have name : MemberName.foreign kind ∈ members.map Prod.fst := List.mem_map.mpr ⟨_, own, rfl⟩
      rw [names] at name
      obtain ⟨f, -, eq⟩ := List.mem_map.mp name
      cases eq
  | @value members m own unfit ih =>
    cases h with
    | record names values =>
      obtain ⟨f, -, is⟩ := exists_of_forall₂ values.flip own
      exact ih is

/-- What is a plain datum is taken for it. -/
def IsFound (c : Candidate) : Prop := ∀ d, c.Denotes d → ∀ path, c.datum path = .ok d

theorem itemData_eq_ok {items : List Candidate} {data : List Datum} (h : List.Forall₂ Denotes items data)
    (each : ∀ c ∈ items, IsFound c) (path : String) (i : Nat) : itemData path i items = .ok data := by
  induction h generalizing i with
  | nil => rfl
  | cons is _ ih =>
    rw [List.forall_mem_cons] at each
    rw [itemData, each.1 _ is, ok_bind, ih each.2]
    rfl

theorem memberData_eq_ok {members : List (MemberName × Candidate)} {fields : Fields}
    (names : members.map Prod.fst = fields.map fun f => MemberName.text f.1)
    (h : List.Forall₂ (fun m f => Denotes m.2 f.2) members fields)
    (each : ∀ m ∈ members, IsFound m.2) (path : String) : memberData path members = .ok fields := by
  induction h with
  | nil => rfl
  | @cons m f rest others is _ ih =>
    obtain ⟨name, c⟩ := m
    rw [List.forall_mem_cons] at each
    obtain ⟨rfl, others⟩ := List.cons.inj names
    rw [memberData, each.1 _ is, ok_bind, ih others each.2]
    rfl

theorem isFound (c : Candidate) : IsFound c := by
  induction c using byParts with
  | scalar c list record =>
    intro d h path
    cases h with
    | @sequence fixed items => exact absurd rfl (list fixed items)
    | @record members => exact absurd rfl (record members)
    | _ => rfl
  | sequence fixed items ih =>
    intro d h path
    cases h with
    | sequence are =>
      rw [datum, itemData_eq_ok are ih]
      rfl
  | record members ih =>
    intro d h path
    cases h with
    | record names are =>
      rw [datum, memberData_eq_ok names are ih]
      rfl

/-- A candidate is one datum at most. -/
theorem Denotes.unique {c : Candidate} {d e : Datum} (hd : c.Denotes d) (he : c.Denotes e) : d = e :=
  Except.ok.inj ((isFound c d hd "").symm.trans (isFound c e he ""))

theorem datum_eq_ok {c : Candidate} {d : Datum} {path : String} : c.datum path = .ok d ↔ c.Denotes d := by
  refine ⟨fun h => ?_, fun h => isFound c d h path⟩
  rcases isTaken c path with ⟨e, taken, is⟩ | ⟨⟨why, -, refused⟩, -⟩
  · cases h.symm.trans taken
    exact is
  · cases h.symm.trans refused

end Candidate

/-! ## Normalized data -/

section Normalized

variable {form : String → String}

@[simp] theorem normalize_list (items : List Datum) :
    normalize form (.list items) = .list (items.map (normalize form)) := by
  have each : normalizeItems form items = items.map (normalize form) := by
    induction items with
    | nil => rfl
    | cons d rest ih => rw [normalizeItems, ih, List.map_cons]
  rw [normalize, each]

theorem normalize_record (fields : Fields) : normalize form (.record fields) =
    .record (ofMembers ((sortFields fields).map fun m => (form m.1, normalize form m.2))) := by
  have each : normalizeFields form fields = fields.map fun m => (m.1, normalize form m.2) := by
    induction fields with
    | nil => rfl
    | cons m rest ih => rw [normalizeFields, ih, List.map_cons]
  rw [normalize, each, sortFields_map]
  simp only [List.map_map, Function.comp_def]

/-- Where no names meet, all members are kept. -/
theorem normalize_record_of_nodup {fields : Fields} (names : (fields.map fun m => form m.1).Nodup) :
    normalize form (.record fields) =
      .record ((sortFields fields).map fun m => (form m.1, normalize form m.2)) := by
  rw [normalize_record, ofMembers_of_nodup]
  rw [List.map_map]
  exact ((sortFields_perm fields).map fun m => form m.1).nodup_iff.mpr names

theorem normalize_scalar {d : Datum} (plain : d.isAtom = true) (other : ∀ s, d ≠ .text s) :
    normalize form d = d := by
  cases d with
  | text s => exact absurd rfl (other s)
  | list | record => cases plain
  | _ => rfl

/-- A property that texts have in any form is kept. -/
theorem each_normalize {P : Datum → Prop} (text : ∀ s, P (.text (form s))) {d : Datum} (h : d.Each P) :
    (normalize form d).Each P := by
  induction d using Datum.byParts with
  | atom d plain =>
    by_cases other : ∃ s, d = .text s
    · obtain ⟨s, rfl⟩ := other
      exact .atom rfl (text s)
    · rw [normalize_scalar plain fun s eq => other ⟨s, eq⟩]
      exact h
  | list items ih =>
    rw [normalize_list, Datum.each_list, List.forall_mem_map]
    exact fun d hd => ih d hd (Datum.each_list.mp h d hd)
  | record fields ih =>
    rw [normalize_record]
    refine Datum.each_ofMembers (List.forall_mem_map.mpr fun m hm => ?_)
    have own := (sortFields_perm fields).mem_iff.mp hm
    exact ih m own (Datum.each_record.mp h m own)

/-- Where no names meet, nothing is lost. -/
theorem each_of_normalize {P : Datum → Prop} (text : ∀ s, P (.text s)) {d : Datum} (distinct : d.Distinct form)
    (h : (normalize form d).Each P) : d.Each P := by
  induction d using Datum.byParts with
  | atom d plain =>
    by_cases other : ∃ s, d = .text s
    · obtain ⟨s, rfl⟩ := other
      exact .atom rfl (text s)
    · rwa [normalize_scalar plain fun s eq => other ⟨s, eq⟩] at h
  | list items ih =>
    rw [normalize_list, Datum.each_list, List.forall_mem_map] at h
    exact .list fun d hd => ih d hd (distinct.items d hd) (h d hd)
  | record fields ih =>
    obtain ⟨names, each⟩ := distinct.fields
    rw [normalize_record_of_nodup names, Datum.each_record, List.forall_mem_map] at h
    exact .record fun m hm => ih m hm (each m hm) (h m ((sortFields_perm fields).mem_iff.mpr hm))

/-- No two members of a normalized record have one name. -/
theorem distinct_normalize (d : Datum) : (normalize form d).Distinct id := by
  induction d using Datum.byParts with
  | atom d plain =>
    refine .atom ?_
    cases d with
    | list | record => cases plain
    | _ => rfl
  | list items ih =>
    rw [normalize_list]
    exact .list (List.forall_mem_map.mpr ih)
  | record fields ih =>
    rw [normalize_record]
    refine .record (nodup_ofMembers _) fun m hm => ?_
    obtain ⟨m', own, rfl⟩ := List.mem_map.mp (mem_of_mem_ofMembers hm)
    exact ih m' ((sortFields_perm fields).mem_iff.mp own)

end Normalized

/-- What JSON has a text for, but for the length of integers. -/
def IsScalar : Datum → Prop
  | .null | .boolean _ | .integer _ | .text _ => True
  | .float _ | .bytes _ | .key _ | .list _ | .record _ => False

theorem Candidate.Denotes.each_isScalar {c : Candidate} {d : Datum} (h : c.Denotes d) : d.Each IsScalar := by
  induction c using Candidate.byParts generalizing d with
  | scalar c list record =>
    cases h with
    | @sequence fixed items => exact absurd rfl (list fixed items)
    | @record members => exact absurd rfl (record members)
    | _ => exact .atom rfl trivial
  | sequence fixed items ih =>
    cases h with
    | sequence are =>
      refine .list fun d hd => ?_
      obtain ⟨c, own, is⟩ := exists_of_forall₂ are hd
      exact ih c own is
  | record members ih =>
    cases h with
    | record names are =>
      refine .record fun m hm => ?_
      obtain ⟨c, own, is⟩ := exists_of_forall₂ are hm
      exact ih c own is

/-- What is written is what can be read. -/
theorem isWritten_iff {d : Datum} (plain : d.Each IsScalar) : isWritten d = true ↔ d.Each Legible := by
  induction d using Datum.byParts with
  | atom d atom =>
    rw [Datum.each_atom atom]
    cases d with
    | integer i => exact decide_eq_true_iff
    | list | record => cases atom
    | float | bytes | key => cases (Datum.each_atom rfl).mp plain
    | null | boolean | text => exact iff_of_true rfl trivial
  | list items ih =>
    rw [Datum.each_list] at plain ⊢
    have all : areWritten items = true ↔ ∀ d ∈ items, isWritten d = true := by
      clear ih plain
      induction items with
      | nil => simp [areWritten]
      | cons d rest ih => rw [areWritten, Bool.and_eq_true, ih, List.forall_mem_cons]
    rw [isWritten, all]
    exact forall₂_congr fun d hd => ih d hd (plain d hd)
  | record fields ih =>
    rw [Datum.each_record] at plain ⊢
    have all : fieldsAreWritten fields = true ↔ ∀ m ∈ fields, isWritten m.2 = true := by
      clear ih plain
      induction fields with
      | nil => simp [fieldsAreWritten]
      | cons m rest ih => rw [fieldsAreWritten, Bool.and_eq_true, ih, List.forall_mem_cons]
    rw [isWritten, all]
    exact forall₂_congr fun m hm => ih m hm (plain m hm)

section Formed

variable (form : String → String)

/-- What canonical text is read as. -/
def formed (d : Datum) : Datum := arranged (normalize form d)

variable {form}

theorem formed_scalar {d : Datum} (plain : d.isAtom = true) (other : ∀ s, d ≠ .text s) : formed form d = d := by
  rw [formed, normalize_scalar plain other, arranged_atom plain]

theorem formed_list (items : List Datum) : formed form (.list items) = .list (items.map (formed form)) := by
  rw [formed, normalize_list, arranged_list, List.map_map]
  rfl

/-- Where no names meet, the members of a record are all there, in the order of their forms. -/
theorem formed_record {fields : Fields} (names : (fields.map fun m => form m.1).Nodup) :
    formed form (.record fields) = .record (sortFields (fields.map fun m => (form m.1, formed form m.2))) := by
  have perm : ((sortFields fields).map fun m => (form m.1, formed form m.2)).Perm
      (fields.map fun m => (form m.1, formed form m.2)) := (sortFields_perm fields).map _
  have single : (((sortFields fields).map fun m => (form m.1, formed form m.2)).map Prod.fst).Nodup := by
    rw [List.map_map]
    exact ((sortFields_perm fields).map fun m => form m.1).nodup_iff.mpr names
  rw [formed, normalize_record_of_nodup names, arranged_record, ← sortFields_map, List.map_map,
    ← sortFields_congr perm single]
  rfl

/-- What is written for two data is the same only if it is read as the same. -/
theorem read_write_normalize {d : Datum} (plain : d.Each IsScalar)
    (short : isWritten (normalize form d) = true) :
    read (write (normalize form d)).toList = .ok (formed form d) :=
  read_write_arranged ((isWritten_iff (each_normalize (fun _ => trivial) plain)).mp short) (distinct_normalize d)

/-! ## Data that are alike -/

/-- Members that are the same beside each other are the same in some order of the others. -/
theorem exists_reordered {fields others : Fields} {f : String × Datum → String × Datum}
    (h : sortFields (fields.map f) = sortFields (others.map f)) :
    ∃ reordered : Fields, reordered.Perm others ∧ fields.map f = reordered.map f := by
  have perm : (fields.map f).Perm (others.map f) :=
    ((sortFields_perm _).symm.trans (.of_eq h)).trans (sortFields_perm _)
  have both := congrFun (congrFun (List.eq_map_comp_perm f) (fields.map f)) others
  obtain ⟨reordered, same, order⟩ := both.symm.mp perm
  exact ⟨reordered, order, same⟩

@[simp] theorem isAtom_formed (d : Datum) : (formed form d).isAtom = d.isAtom := by
  cases d with
  | list items =>
    rw [formed_list]
    rfl
  | record fields =>
    rw [formed, normalize_record, arranged_record]
    rfl
  | _ => rfl

theorem isAtom_eq_of_formed_eq {d e : Datum} (h : formed form d = formed form e) : d.isAtom = e.isAtom := by
  have same := congrArg Datum.isAtom h
  rwa [isAtom_formed, isAtom_formed] at same

theorem alike_of_atom {d e : Datum} (hd : d.isAtom = true) (he : e.isAtom = true)
    (h : formed form d = formed form e) : d.Alike form e := by
  cases d with
  | list | record => cases hd
  | text s =>
    cases e with
    | list | record => cases he
    | text t => exact .text (Datum.text.inj h)
    | _ => cases h
  | _ =>
    have same : e = formed form e := by
      cases e with
      | list | record => cases he
      | text t => cases h
      | _ => rfl
    rw [same, ← h]
    exact .atom rfl

/-- Data in which no names meet are alike if they are read as the same. -/
theorem alike_of_formed_eq {d e : Datum} (hd : d.Distinct form) (he : e.Distinct form)
    (h : formed form d = formed form e) : d.Alike form e := by
  induction d using Datum.byParts generalizing e with
  | atom d plain => exact alike_of_atom plain ((isAtom_eq_of_formed_eq h).symm.trans plain) h
  | list items ih =>
    have kind := isAtom_eq_of_formed_eq h
    cases e with
    | list others =>
      rw [formed_list, formed_list, Datum.list.injEq] at h
      refine .list (forall₂_imp_of_mem (forall₂_of_map_eq h) fun a ha b hb same => ?_)
      exact ih a ha (hd.items a ha) (he.items b hb) same
    | record others =>
      rw [formed_list, formed_record he.fields.1] at h
      cases h
    | _ => cases kind
  | record fields ih =>
    have kind := isAtom_eq_of_formed_eq h
    obtain ⟨names, each⟩ := hd.fields
    rw [formed_record names] at h
    cases e with
    | list others =>
      rw [formed_list] at h
      cases h
    | record others =>
      obtain ⟨names', each'⟩ := he.fields
      rw [formed_record names', Datum.record.injEq] at h
      obtain ⟨reordered, order, same⟩ := exists_reordered h
      have forms := congrArg (List.map Prod.fst) same
      rw [List.map_map, List.map_map] at forms
      refine .record order forms (forall₂_imp_of_mem (forall₂_of_map_eq same) fun m hm n hn same => ?_)
      exact ih m hm (each m hm) (each' n (order.mem_iff.mp hn)) (Prod.mk.inj same).2
    | _ => cases kind

/-- Data that are alike are read as the same. -/
theorem formed_eq_of_alike {d e : Datum} (hd : d.Distinct form) (he : e.Distinct form) (h : d.Alike form e) :
    formed form d = formed form e := by
  induction d using Datum.byParts generalizing e with
  | atom d plain =>
    cases h with
    | atom => rfl
    | text same => exact congrArg Datum.text same
    | list | record => cases plain
  | list items ih =>
    cases h with
    | atom plain => cases plain
    | list each =>
      have same := forall₂_imp_of_mem each fun a ha b hb alike => ih a ha (hd.items a ha) (he.items b hb) alike
      rw [formed_list, formed_list, map_eq_of_forall₂ same]
  | record fields ih =>
    cases h with
    | atom plain => cases plain
    | @record _ others reordered order names values =>
      obtain ⟨single, each⟩ := hd.fields
      obtain ⟨single', each'⟩ := he.fields
      have same : List.Forall₂ (fun m n => formed form m.2 = formed form n.2) fields reordered :=
        forall₂_imp_of_mem values fun m hm n hn alike =>
          ih m hm (each m hm) (each' n (order.mem_iff.mp hn)) alike
      have pairs : (fields.map fun m => (form m.1, formed form m.2)) =
          reordered.map fun m => (form m.1, formed form m.2) := by
        rw [← List.zip_map', ← List.zip_map', names, map_eq_of_forall₂ same]
      have perm := order.map fun m => (form m.1, formed form m.2)
      have distinct : ((reordered.map fun m => (form m.1, formed form m.2)).map Prod.fst).Nodup := by
        rw [List.map_map]
        exact (order.map fun m => form m.1).nodup_iff.mpr single'
      rw [formed_record single, formed_record single', pairs, sortFields_congr perm distinct]

/-- A datum is alike with what is read for it if no names meet in it. -/
theorem alike_formed (idem : ∀ s, form (form s) = form s) {d : Datum} (h : d.Distinct form) :
    d.Alike form (formed form d) := by
  induction d using Datum.byParts with
  | atom d plain =>
    by_cases text : ∃ s, d = .text s
    · obtain ⟨s, rfl⟩ := text
      exact .text (idem s).symm
    · rw [formed_scalar plain fun s eq => text ⟨s, eq⟩]
      exact .atom plain
  | list items ih =>
    rw [formed_list]
    refine .list (List.forall₂_map_right_iff.mpr (List.forall₂_same.mpr fun d hd => ?_))
    exact ih d hd (h.items d hd)
  | record fields ih =>
    obtain ⟨names, each⟩ := h.fields
    rw [formed_record names]
    refine .record (sortFields_perm _).symm ?_ ?_
    · rw [List.map_map]
      exact List.map_congr_left fun m _ => (idem m.1).symm
    · refine List.forall₂_map_right_iff.mpr (List.forall₂_same.mpr fun m hm => ?_)
      exact ih m hm (each m hm)

/-- No names meet in what is read. -/
theorem distinct_formed (idem : ∀ s, form (form s) = form s) (d : Datum) : (formed form d).Distinct form := by
  induction d using Datum.byParts with
  | atom d plain => exact .atom (by rwa [isAtom_formed])
  | list items ih =>
    rw [formed_list]
    exact .list (List.forall_mem_map.mpr ih)
  | record fields ih =>
    rw [formed, normalize_record, arranged_record]
    generalize made : (sortFields fields).map (fun m => (form m.1, normalize form m.2)) = members
    have own : ∀ m ∈ ofMembers members, ∃ m' ∈ fields, (form m'.1, normalize form m'.2) = m := by
      intro m hm
      rw [← made] at hm
      obtain ⟨m', hm', same⟩ := List.mem_map.mp (mem_of_mem_ofMembers hm)
      exact ⟨m', (sortFields_perm fields).mem_iff.mp hm', same⟩
    have perm := sortFields_perm (ofMembers members)
    refine .record ?_ (List.forall_mem_map.mpr fun m hm => ?_)
    · have fixed : ∀ m ∈ sortFields (ofMembers members), form m.1 = m.1 := by
        intro m hm
        obtain ⟨m', -, rfl⟩ := own m (perm.mem_iff.mp hm)
        exact idem m'.1
      rw [List.map_map]
      change ((sortFields (ofMembers members)).map fun m => form m.1).Nodup
      rw [List.map_congr_left fixed]
      exact (perm.map Prod.fst).nodup_iff.mpr (nodup_ofMembers members)
    · obtain ⟨m', hm', rfl⟩ := own m (perm.mem_iff.mp hm)
      exact ih m' hm'

/-- Names that meet in a datum meet in what is alike with it. -/
theorem distinct_of_alike {d e : Datum} (h : d.Alike form e) (he : e.Distinct form) : d.Distinct form := by
  induction d using Datum.byParts generalizing e with
  | atom d plain => exact .atom plain
  | list items ih =>
    cases h with
    | atom plain => cases plain
    | list each =>
      refine .list fun d hd => ?_
      obtain ⟨e, own, alike⟩ := exists_of_forall₂ each.flip hd
      exact ih d hd alike (he.items e own)
  | record fields ih =>
    cases h with
    | atom plain => cases plain
    | record order names values =>
      obtain ⟨single, each⟩ := he.fields
      refine .record ?_ fun m hm => ?_
      · rw [names]
        exact (order.map fun m => form m.1).nodup_iff.mpr single
      · obtain ⟨n, own, alike⟩ := exists_of_forall₂ values.flip hm
        exact ih m hm alike (each n (order.mem_iff.mp own))

end Formed

/-! ## Canonical text -/

section Text

variable {form : String → String} {c : Candidate} {d : Datum} {t : String}

theorem canonicalText_of_denotes (h : c.Denotes d) : canonicalText form c =
    if isWritten (normalize form d) then .ok (write (normalize form d)) else .error .tooLong := by
  rw [canonicalText, Candidate.datum_eq_ok.mpr h, ok_bind]
  rfl

theorem canonicalText_eq_ok : canonicalText form c = .ok t ↔
    ∃ d, c.Denotes d ∧ isWritten (normalize form d) = true ∧ write (normalize form d) = t := by
  constructor
  · intro h
    obtain ⟨d, taken, written⟩ := bind_eq_ok.mp h
    dsimp only at written
    split at written
    next short => exact ⟨d, Candidate.datum_eq_ok.mp taken, short, pure_eq_ok.mp written⟩
    next => cases written
  · rintro ⟨d, is, short, rfl⟩
    rw [canonicalText_of_denotes is, if_pos short]

/-- Canonical text is read as the formed datum. -/
theorem read_canonicalText (is : c.Denotes d) (h : canonicalText form c = .ok t) :
    read t.toList = .ok (formed form d) := by
  rw [canonicalText_of_denotes is] at h
  split at h
  next short =>
    cases h
    exact read_write_normalize is.each_isScalar short
  next => cases h

theorem eq_write_formed (is : c.Denotes d) (h : canonicalText form c = .ok t) :
    t = write (formed form d) := by
  obtain ⟨_, is', -, rfl⟩ := canonicalText_eq_ok.mp h
  rw [is.unique is', formed, write_arranged]

/-- What keeps a candidate from having a canonical text, but for long integers, is that something in it is
unfit. -/
theorem isRefused_canonicalText : Candidate.IsRefused (canonicalText form c) ↔ c.HasUnfit := by
  constructor
  · rintro ⟨why, kind, refused⟩
    rcases c.isTaken "" with ⟨d, taken, is⟩ | ⟨-, unfit⟩
    · rw [canonicalText_of_denotes is] at refused
      split at refused
      next => cases refused
      next => exact absurd (Except.error.inj refused).symm kind
    · exact unfit
  · intro unfit
    rcases c.isTaken "" with ⟨d, -, is⟩ | ⟨refused, -⟩
    · exact absurd unfit is.not_hasUnfit
    · exact refused.bind _

/-- Where no names meet, what has a text is what has no long integer. -/
theorem exists_canonicalText (is : c.Denotes d) (distinct : d.Distinct form) :
    (∃ t, canonicalText form c = .ok t) ↔ d.Each Legible := by
  have plain : (normalize form d).Each IsScalar := each_normalize (fun _ => trivial) is.each_isScalar
  rw [canonicalText_of_denotes is]
  constructor
  · rintro ⟨t, h⟩
    split at h
    next short => exact each_of_normalize (fun _ => trivial) distinct ((isWritten_iff plain).mp short)
    next => cases h
  · intro legible
    have short := (isWritten_iff plain).mpr (each_normalize (fun _ => trivial) legible)
    exact ⟨_, if_pos short⟩

end Text

/-- Canonical text tells apart just what is different, whatever form it puts texts into, once and for all.
Long integers apart, a candidate is refused if and only if something in it is unfit; all others are plain
data. Of these each has a text if no names of one record meet, and two such have one text if and only if
they are alike. Read again, a text is alike with what it is the text of, member by member, unless names
meet there. -/
theorem canonical_text_identifies (form : String → String) (idem : ∀ s, form (form s) = form s) :
    (∀ c : Candidate, (∃ why, why ≠ .tooLong ∧ canonicalText form c = .error why) ↔ c.HasUnfit) ∧
    (∀ c : Candidate, (∃ d, c.Denotes d) ↔ ¬ c.HasUnfit) ∧
    (∀ (c : Candidate) (d : Datum), c.Denotes d → d.Distinct form →
      ((∃ t, canonicalText form c = .ok t) ↔ d.Each Legible)) ∧
    (∀ (a b : Candidate) (d e : Datum) (t u : String), a.Denotes d → b.Denotes e → d.Distinct form →
      e.Distinct form → canonicalText form a = .ok t → canonicalText form b = .ok u →
        (t = u ↔ d.Alike form e)) ∧
    ∀ (c : Candidate) (d : Datum) (t : String), c.Denotes d → canonicalText form c = .ok t →
      ∃ e, read t.toList = .ok e ∧ (d.Alike form e ↔ d.Distinct form) := by
  refine ⟨fun c => isRefused_canonicalText, fun c => ?_, fun c d => exists_canonicalText, ?_, ?_⟩
  · constructor
    · rintro ⟨d, is⟩
      exact is.not_hasUnfit
    · intro fit
      rcases c.isTaken "" with ⟨d, -, is⟩ | ⟨-, unfit⟩
      · exact ⟨d, is⟩
      · exact absurd unfit fit
  · intro a b d e t u ha hb hd he ht hu
    constructor
    · rintro rfl
      have same := (read_canonicalText ha ht).symm.trans (read_canonicalText hb hu)
      exact alike_of_formed_eq hd he (Except.ok.inj same)
    · intro alike
      rw [eq_write_formed ha ht, eq_write_formed hb hu, formed_eq_of_alike hd he alike]
  · intro c d t is h
    refine ⟨formed form d, read_canonicalText is h, fun alike => ?_, alike_formed idem⟩
    exact distinct_of_alike alike (distinct_formed idem d)

/-- The composed form of texts in which an accent is the only mark. -/
def accented (s : String) : String := if s = "e\u0301" then "\u00e9" else s

/-- Another spelling of a text, a sequence of the other kind and another order of the members leave the text
as it is. -/
theorem accented_text_is_identified : (∀ s, accented (accented s) = accented s) ∧
    ∃ t, canonicalText accented
        (.record [(.text "b", .sequence true [.text "e\u0301"]), (.text "a", .boolean true)]) = .ok t ∧
      canonicalText accented
        (.record [(.text "a", .boolean true), (.text "b", .sequence false [.text "\u00e9"])]) = .ok t := by
  have idem : ∀ s, accented (accented s) = accented s := by
    intro s
    unfold accented
    split
    · decide
    · rfl
  obtain ⟨-, -, texts, same, -⟩ := canonical_text_identifies accented idem
  have first : Candidate.Denotes
      (.record [(.text "b", .sequence true [.text "e\u0301"]), (.text "a", .boolean true)])
      (.record [("b", .list [.text "e\u0301"]), ("a", .boolean true)]) :=
    .record rfl (.cons (.sequence (.cons (.text _) .nil)) (.cons (.boolean true) .nil))
  have second : Candidate.Denotes
      (.record [(.text "a", .boolean true), (.text "b", .sequence false [.text "\u00e9"])])
      (.record [("a", .boolean true), ("b", .list [.text "\u00e9"])]) :=
    .record rfl (.cons (.boolean true) (.cons (.sequence (.cons (.text _) .nil)) .nil))
  have list : ∀ s : String, (Datum.list [.text s]).Each Legible ∧ (Datum.list [.text s]).Distinct accented :=
    fun s => ⟨.list (List.forall_mem_singleton.mpr (.atom rfl trivial)),
      .list (List.forall_mem_singleton.mpr (.atom rfl))⟩
  have flag : (Datum.boolean true).Each Legible ∧ (Datum.boolean true).Distinct accented :=
    ⟨.atom rfl trivial, .atom rfl⟩
  obtain ⟨legible₁, distinct₁⟩ := list "e\u0301"
  obtain ⟨legible₂, distinct₂⟩ := list "\u00e9"
  have distinct : (Datum.record [("b", .list [.text "e\u0301"]), ("a", .boolean true)]).Distinct accented :=
    .record (by decide) (List.forall_mem_cons.mpr ⟨distinct₁, List.forall_mem_singleton.mpr flag.2⟩)
  have distinct' : (Datum.record [("a", .boolean true), ("b", .list [.text "\u00e9"])]).Distinct accented :=
    .record (by decide) (List.forall_mem_cons.mpr ⟨flag.2, List.forall_mem_singleton.mpr distinct₂⟩)
  obtain ⟨t, ht⟩ := (texts _ _ first distinct).mpr
    (.record (List.forall_mem_cons.mpr ⟨legible₁, List.forall_mem_singleton.mpr flag.1⟩))
  obtain ⟨u, hu⟩ := (texts _ _ second distinct').mpr
    (.record (List.forall_mem_cons.mpr ⟨flag.1, List.forall_mem_singleton.mpr legible₂⟩))
  have order : [("b", Datum.list [.text "\u00e9"]), ("a", .boolean true)].Perm
      [("a", .boolean true), ("b", .list [.text "\u00e9"])] := .swap _ _ _
  have spellings : accented "e\u0301" = accented "\u00e9" := by decide
  have alike : (Datum.record [("b", .list [.text "e\u0301"]), ("a", .boolean true)]).Alike accented
      (.record [("a", .boolean true), ("b", .list [.text "\u00e9"])]) :=
    .record order rfl (.cons (.list (.cons (.text spellings) .nil)) (.cons (.atom rfl) .nil))
  have eq : t = u := (same _ _ _ _ _ _ first second distinct distinct' ht hu).mpr alike
  exact ⟨idem, t, ht, eq ▸ hu⟩

theorem composed_accent : Text.composed "e\u0301" = "\u00e9" := by decide +kernel

theorem composed_letter : Text.composed "\u00e9" = "\u00e9" := by decide +kernel

/-- Of two members whose names are one when composed the text has one: the other member is dropped, and the
text is that of an object without it. -/
theorem accented_member_is_dropped :
    canonicalText Text.composed (.record [(.text "\u00e9", .integer 1), (.text "e\u0301", .integer 2)]) =
      .ok "\x7b\"\u00e9\":1\x7d" ∧
    canonicalText Text.composed (.record [(.text "\u00e9", .integer 1)]) = .ok "\x7b\"\u00e9\":1\x7d" ∧
    ¬ Datum.Alike Text.composed (.record [("\u00e9", .integer 1), ("e\u0301", .integer 2)])
      (.record [("\u00e9", .integer 1)]) := by
  have sorted : sortFields [("\u00e9", Datum.integer 1), ("e\u0301", Datum.integer 2)] =
      [("e\u0301", Datum.integer 2), ("\u00e9", Datum.integer 1)] := by simp [sortFields, List.mergeSort]
  have single : ∀ text : String, sortFields [("\u00e9", text)] = [("\u00e9", text)] := by simp [sortFields]
  have both : normalize Text.composed (.record [("\u00e9", .integer 1), ("e\u0301", .integer 2)]) =
      .record [("\u00e9", .integer 1)] := by
    rw [normalize_record, sorted]
    simp only [List.map_cons, List.map_nil, composed_accent, composed_letter, normalize]
    rfl
  have one : normalize Text.composed (.record [("\u00e9", .integer 1)]) =
      .record [("\u00e9", .integer 1)] := by
    rw [normalize_record]
    simp only [sortFields, List.mergeSort_singleton, List.map_cons, List.map_nil, composed_letter, normalize]
    rfl
  have text : write (.record [("\u00e9", .integer 1)]) = "\x7b\"\u00e9\":1\x7d" := by
    simp only [write, writeFields, single]
    rfl
  refine ⟨?_, ?_, ?_⟩
  · rw [canonicalText_of_denotes (d := .record [("\u00e9", .integer 1), ("e\u0301", .integer 2)]), both, text]
    · rfl
    · exact .record rfl (.cons (.integer 1) (.cons (.integer 2) .nil))
  · rw [canonicalText_of_denotes (d := .record [("\u00e9", .integer 1)]), one, text]
    · rfl
    · exact .record rfl (.cons (.integer 1) .nil)
  · intro alike
    cases alike with
    | record order names values =>
      have lengths := values.length_eq.trans order.length_eq
      cases lengths

end Json

end Covenant
