import Covenant.Proofs.Number.Decimal
import Covenant.Proofs.Run.Minimal
import Covenant.Proofs.Run.Reordering
/-!
The last records of their ids, in two orders.

* `LastAt`, `exists_lastPlaces`: the last place of something in a list, and how the last places of one list
  are carried to those of another;
* `Inputs.KeepsLast`: orders in which, for each id, the same record is the last that has it;
* `Inputs.Reordered.exists_moved`: the marks of places can be moved so that all records which are looked up
  in one order become those that are looked up in the other;
* `Inputs.Reordered.tables_cases`: so the tables that two runs look them up in are the same but for marks.
-/

namespace Covenant

/-! ## Places -/

/-- What stands before the first of a character is determined. -/
theorem append_cons_inj {c : Char} {a b s t : List Char} (ha : c ∉ a) (hb : c ∉ b)
    (h : a ++ c :: s = b ++ c :: t) : a = b ∧ s = t := by
  induction a generalizing b with
  | nil =>
    cases b with
    | nil => exact ⟨rfl, (List.cons.inj h).2⟩
    | cons x b =>
      obtain rfl := (List.cons.inj h).1
      exact absurd List.mem_cons_self hb
  | cons x a ih =>
    cases b with
    | nil =>
      obtain rfl := (List.cons.inj h).1
      exact absurd List.mem_cons_self ha
    | cons y b =>
      obtain ⟨rfl, rest⟩ := List.cons.inj h
      obtain ⟨rfl, same⟩ := ih (fun hx => ha (List.mem_cons_of_mem _ hx))
        (fun hx => hb (List.mem_cons_of_mem _ hx)) rest
      exact ⟨rfl, same⟩

namespace Inputs

def recordPath (abi : Abi) (p : { t // t ∈ abi.otherTypes } × Nat) : String :=
  Json.itemPath ("other_records." ++ p.1.1.name) p.2

theorem apart_recordPath {abi : Abi} (single : abi.Single)
    (plain : ∀ t ∈ abi.otherTypes, '[' ∉ t.name.toList) : Origin.Apart (recordPath abi) := by
  rintro ⟨⟨t, ht⟩, i⟩ ⟨⟨t', ht'⟩, j⟩ s s' h
  have chars := congrArg String.toList h
  simp only [recordPath, Json.itemPath, Decimal.natural, String.toList_append, String.toList_ofList,
    List.append_assoc] at chars
  have chars := List.append_cancel_left chars
  obtain ⟨names, chars⟩ := append_cons_inj (plain t ht) (plain t' ht') chars
  have bracket : ∀ n, ']' ∉ Decimal.digits n := by
    intro n here
    exact absurd (Decimal.isDigit_of_mem_digits here) (by decide)
  obtain ⟨numbers, -⟩ := append_cons_inj (bracket i) (bracket j) chars
  obtain rfl := single t ht t' ht' (String.toList_inj.mp names)
  have same : i = j := by rw [← Decimal.value_digits i, numbers, Decimal.value_digits]
  rw [same]

end Inputs

/-! ## Last places -/

/-- The last place of a list where something with a property stands. -/
def LastAt {α : Type} (p : α → Bool) (l : List α) (i : Nat) (a : α) : Prop :=
  l[i]? = some a ∧ p a = true ∧ ∀ j b, i < j → l[j]? = some b → p b = false

namespace LastAt

variable {α β κ : Type} {p : α → Bool} {l : List α} {i j : Nat} {a b : α}

theorem unique (h : LastAt p l i a) (h' : LastAt p l j b) : i = j := by
  rcases Nat.lt_trichotomy i j with early | same | late
  · cases (h.2.2 j b early h'.1).symm.trans h'.2.1
  · exact same
  · cases (h'.2.2 i a late h.1).symm.trans h.2.1

theorem cons_iff : LastAt p (a :: l) (i + 1) b ↔ LastAt p l i b := by
  constructor
  · rintro ⟨here, holds, later⟩
    exact ⟨here, holds, fun j c hj hc => later (j + 1) c (by omega) hc⟩
  · rintro ⟨here, holds, later⟩
    refine ⟨here, holds, fun j c hj hc => ?_⟩
    cases j with
    | zero => omega
    | succ j => exact later j c (by omega) hc

/-- A search from the end finds what stands last. -/
theorem find?_reverse_eq_some : l.reverse.find? p = some b ↔ ∃ i, LastAt p l i b := by
  induction l generalizing b with
  | nil => simp [LastAt]
  | cons a l ih =>
    rw [List.reverse_cons, List.find?_append]
    cases found : l.reverse.find? p with
    | some c =>
      obtain ⟨k, hk⟩ := ih.mp found
      rw [Option.some_or, ← found, ih]
      constructor
      · rintro ⟨i, h⟩
        exact ⟨i + 1, cons_iff.mpr h⟩
      · rintro ⟨i, h⟩
        cases i with
        | zero => cases (h.2.2 (k + 1) c (Nat.succ_pos k) hk.1).symm.trans hk.2.1
        | succ i => exact ⟨i, cons_iff.mp h⟩
    | none =>
      have others : ∀ c ∈ l, p c = false := by simpa using found
      rw [Option.none_or, List.find?_singleton]
      constructor
      · intro h
        split at h
        next holds =>
          cases h
          refine ⟨0, rfl, holds, fun j c hj hc => ?_⟩
          cases j with
          | zero => omega
          | succ j => exact others c (List.mem_of_getElem? hc)
        next => cases h
      · rintro ⟨i, h⟩
        cases i with
        | zero =>
          cases h.1
          rw [if_pos h.2.1]
        | succ i => cases (ih.mpr ⟨i, cons_iff.mp h⟩).symm.trans found

/-- What stands beside the last one is the last one with a property that goes with the other. -/
theorem beside {q : β → Bool} {m : List β} (h : LastAt p l i a)
    (each : ∀ j : Nat, (l[j]? = none ∧ m[j]? = none) ∨
      ∃ a b, l[j]? = some a ∧ m[j]? = some b ∧ p a = q b) {b : β} (hb : m[i]? = some b) :
    LastAt q m i b := by
  have same : ∀ {j : Nat} {a : α} {b : β}, l[j]? = some a → m[j]? = some b → p a = q b := by
    intro j a b ha hb
    rcases each j with ⟨none, -⟩ | ⟨a', b', ha', hb', same⟩
    · cases none.symm.trans ha
    · cases ha'.symm.trans ha
      cases hb'.symm.trans hb
      exact same
  refine ⟨hb, (same h.1 hb).symm.trans h.2.1, fun j c hj hc => ?_⟩
  rcases each j with ⟨-, none⟩ | ⟨a', c', ha, hc', also⟩
  · cases none.symm.trans hc
  · cases hc'.symm.trans hc
    exact also.symm.trans (h.2.2 j a' hj ha)

end LastAt

open Classical in
/-- The last places for all properties in one list are carried to those in another, if nothing has two of
the properties. -/
theorem exists_lastPlaces {α κ : Type} (p : κ → α → Bool)
    (one : ∀ x y a, p x a = true → p y a = true → x = y) (l l' : List α) :
    ∃ σ : Nat → Nat, σ.Injective ∧
      ∀ x i j a b, LastAt (p x) l i a → LastAt (p x) l' j b → σ i = j := by
  let Pairs : Nat → Nat → Prop := fun i j => ∃ x a b, LastAt (p x) l i a ∧ LastAt (p x) l' j b
  have right : ∀ {i j k}, Pairs i j → Pairs i k → j = k := by
    rintro i j k ⟨x, a, b, ha, hb⟩ ⟨y, a', b', ha', hb'⟩
    cases ha.1.symm.trans ha'.1
    obtain rfl := one x y a ha.2.1 ha'.2.1
    exact hb.unique hb'
  have left : ∀ {i j k}, Pairs i k → Pairs j k → i = j := by
    rintro i j k ⟨x, a, b, ha, hb⟩ ⟨y, a', b', ha', hb'⟩
    cases hb.1.symm.trans hb'.1
    obtain rfl := one x y b hb.2.1 hb'.2.1
    exact ha.unique ha'
  have inside : ∀ {i j}, Pairs i j → j < l'.length := by
    rintro i j ⟨x, a, b, -, hb⟩
    exact (List.getElem?_eq_some_iff.mp hb.1).1
  -- places that are not the last of anything go behind the other list
  let σ : Nat → Nat := fun i => if h : ∃ j, Pairs i j then h.choose else l'.length + i
  have pairs : ∀ {i j}, Pairs i j → σ i = j := by
    intro i j h
    have some : ∃ j, Pairs i j := ⟨j, h⟩
    exact (dif_pos some).trans (right some.choose_spec h)
  have others : ∀ {i}, (¬ ∃ j, Pairs i j) → σ i = l'.length + i := fun h => dif_neg h
  refine ⟨σ, fun i k same => ?_, fun x i j a b ha hb => pairs ⟨x, a, b, ha, hb⟩⟩
  by_cases hi : ∃ j, Pairs i j <;> by_cases hk : ∃ j, Pairs k j
  · obtain ⟨j, hj⟩ := hi
    obtain ⟨j', hj'⟩ := hk
    rw [pairs hj, pairs hj'] at same
    exact left hj (same ▸ hj')
  · obtain ⟨j, hj⟩ := hi
    rw [pairs hj, others hk] at same
    have := inside hj
    omega
  · obtain ⟨j, hj⟩ := hk
    rw [others hi, pairs hj] at same
    have := inside hj
    omega
  · rw [others hi, others hk] at same
    omega

/-! ## Records by their ids -/

namespace Inputs

/-- The datum that is looked up by an id: the last one that gives it. -/
def lastWith (type : RecordType) (id : Bytes) (data : List Datum) : Option Datum :=
  data.reverse.find? (givesId type id)

/-- Reordered records of which, for each id, the same one is the last that has it. -/
def KeepsLast (abi : Abi) (others others' : Datum) : Prop :=
  ∀ type ∈ abi.otherTypes, ∀ data data', recordData others type.name = .ok data →
    recordData others' type.name = .ok data' → ∀ id, lastWith type id data' = lastWith type id data

/-- No two of the data that are given for the records of a type give the same id. -/
def HasOwnIds (abi : Abi) (others : Datum) : Prop :=
  ∀ type ∈ abi.otherTypes, ∀ data, recordData others type.name = .ok data →
    (data.map (givenId type)).Nodup

theorem givesId_unique {type : RecordType} {id id' : Bytes} {d : Datum} (h : givesId type id d = true)
    (h' : givesId type id' d = true) : id = id' :=
  Option.some.inj ((beq_iff_eq.mp h).symm.trans (beq_iff_eq.mp h'))

/-- Where no two data give the same id, the one that is looked up is the one that gives it. -/
theorem lastWith_eq_some_iff {type : RecordType} {id : Bytes} {data : List Datum} {d : Datum}
    (nodup : (data.map (givenId type)).Nodup) :
    lastWith type id data = some d ↔ d ∈ data ∧ givesId type id d = true := by
  have found : ∀ {d}, lastWith type id data = some d → d ∈ data ∧ givesId type id d = true :=
    fun here => ⟨List.mem_reverse.mp (List.mem_of_find?_eq_some here), List.find?_some here⟩
  refine ⟨found, fun ⟨hd, gives⟩ => ?_⟩
  have there : (lastWith type id data).isSome = true :=
    List.find?_isSome.mpr ⟨d, List.mem_reverse.mpr hd, gives⟩
  obtain ⟨d', last⟩ := Option.isSome_iff_exists.mp there
  obtain ⟨hd', gives'⟩ := found last
  rw [last, List.inj_on_of_nodup_map nodup hd' hd
    ((beq_iff_eq.mp gives').trans (beq_iff_eq.mp gives).symm)]

/-- Any order of records of different ids keeps for each id the last one. -/
theorem HasOwnIds.keepsLast {abi : Abi} {others others' : Datum} (own : HasOwnIds abi others)
    (h : Reordered others others') : KeepsLast abi others others' := by
  intro type ht data data' hd hd' id
  obtain ⟨data'', hd'', perm⟩ := h.exists_recordData hd
  cases hd'.symm.trans hd''
  have nodup := own type ht data hd
  have nodup' := (perm.map (givenId type)).nodup_iff.mp nodup
  ext d
  rw [lastWith_eq_some_iff nodup', lastWith_eq_some_iff nodup, perm.mem_iff]

/-- The record that is looked up by an id is read of the last datum that gives it. -/
theorem exists_lastAt {type : RecordType} {path : String} {data : List Datum}
    {records : List SuppliedRecord} (unmoved : ∀ d ∈ data, d.Unmoved)
    (read : readRecords type path 0 data = .ok records) {id : Bytes} {i : Nat} {d : Datum}
    (last : LastAt (givesId type id) data i d) : ∃ r, readSupplied type (Json.itemPath path i) d = .ok r ∧
      records.reverse.find? (·.hasId id) = some r := by
  rcases readRecords_eq_ok read i with ⟨none, -⟩ | ⟨d', r, hd, hr, made⟩
  · cases none.symm.trans last.1
  · cases hd.symm.trans last.1
    exact ⟨r, made, LastAt.find?_reverse_eq_some.mpr ⟨i, last.beside (hasId_cases unmoved read id) hr⟩⟩

theorem find?_eq_none {type : RecordType} {path : String} {data : List Datum}
    {records : List SuppliedRecord} (unmoved : ∀ d ∈ data, d.Unmoved)
    (read : readRecords type path 0 data = .ok records) {id : Bytes}
    (absent : lastWith type id data = none) : records.reverse.find? (·.hasId id) = none := by
  have none : records.any (·.hasId id) = false := by
    rw [any_hasId unmoved read, List.any_eq_false]
    simpa [lastWith] using absent
  simpa using none

/-- The record that is looked up by an id is the same in another order but for marks, if the last datum
that gives the id is the same. -/
theorem Rereads.find?_eq {type : RecordType} {data data' : List Datum}
    {records records' : List SuppliedRecord} (h : Rereads type data data' records records')
    {g : Origin → Origin} (places : Origin.MovesPlaces g) {id : Bytes}
    (same : lastWith type id data' = lastWith type id data)
    (moves : ∀ i j d, LastAt (givesId type id) data i d → LastAt (givesId type id) data' j d →
      Origin.Moves g (Json.itemPath ("other_records." ++ type.name) i)
        (Json.itemPath ("other_records." ++ type.name) j)) :
    records'.reverse.find? (·.hasId id) =
      (records.reverse.find? (·.hasId id)).map (SuppliedRecord.remarked g) := by
  cases found : lastWith type id data with
  | none =>
    rw [found] at same
    rw [find?_eq_none h.unmoved h.read found, find?_eq_none h.symm.unmoved h.read' same]
    rfl
  | some d =>
    rw [found] at same
    obtain ⟨i, hi⟩ := LastAt.find?_reverse_eq_some.mp found
    obtain ⟨j, hj⟩ := LastAt.find?_reverse_eq_some.mp same
    obtain ⟨r, made, hr⟩ := exists_lastAt h.unmoved h.read hi
    obtain ⟨r', made', hr'⟩ := exists_lastAt h.symm.unmoved h.read' hj
    have again := readSupplied_remarked (moves i j d hi hj) made
    rw [h.unmoved d (List.mem_of_getElem? hi.1) g places] at again
    cases made'.symm.trans again
    rw [hr, hr']
    rfl

/-! ## Marks -/

/-- Places elsewhere are not among those of supplied records. -/
theorem recordPath_ne {abi : Abi} {c : Char} {path : String} (first : path.toList.head? = some c)
    (other : c ≠ 'o') (rest : String) (p : { t // t ∈ abi.otherTypes } × Nat) (s : String) :
    path ++ rest ≠ recordPath abi p ++ s := by
  intro same
  have chars := congrArg (List.head? ∘ String.toList) same
  simp only [Function.comp_apply, recordPath, Json.itemPath, String.toList_append, List.append_assoc] at chars
  rw [List.head?_append, first] at chars
  exact other (Option.some.inj chars)

variable {abi : Abi} {others others' : Datum} {read read' : List (String × List SuppliedRecord)}

/-- The marks of places can be moved so that all records which are looked up by an id become those that are
looked up by it in another order. -/
theorem Reordered.exists_moved (h : Reordered others others') (unmoved : others.Unmoved)
    (single : abi.Single) (plain : ∀ t ∈ abi.otherTypes, '[' ∉ t.name.toList)
    (hr : readOthers abi others = .ok read) (hr' : readOthers abi others' = .ok read')
    (keeps : KeepsLast abi others others') : ∃ g : Origin → Origin, Origin.Recasts g ∧
      Origin.MovesPlaces g ∧ Origin.Moves g "this" "this" ∧ Origin.Moves g "args." "args." ∧
      ∀ name id, ((read'.lookup name).getD []).reverse.find? (·.hasId id) =
        (((read.lookup name).getD []).reverse.find? (·.hasId id)).map (SuppliedRecord.remarked g) := by
  have each : ∀ t : { t // t ∈ abi.otherTypes }, ∃ σ : Nat → Nat, σ.Injective ∧
      ∀ data data', recordData others t.1.name = .ok data → recordData others' t.1.name = .ok data' →
        ∀ id i j a b, LastAt (givesId t.1 id) data i a → LastAt (givesId t.1 id) data' j b → σ i = j := by
    rintro ⟨type, ht⟩
    obtain ⟨data, -, hd, -⟩ := exists_lookup_of_readOthers single hr ht
    obtain ⟨data', -, hd', -⟩ := exists_lookup_of_readOthers single hr' ht
    obtain ⟨σ, inj, carried⟩ :=
      exists_lastPlaces (givesId type) (fun _ _ _ => givesId_unique) data data'
    refine ⟨σ, inj, fun e e' he he' => ?_⟩
    cases hd.symm.trans he
    cases hd'.symm.trans he'
    exact carried
  choose σ inj carried using each
  have apart := apart_recordPath single plain
  let carry : { t // t ∈ abi.otherTypes } × Nat → { t // t ∈ abi.otherTypes } × Nat :=
    fun p => (p.1, σ p.1 p.2)
  have carryInjective : carry.Injective := by
    rintro ⟨t, i⟩ ⟨t', j⟩ same
    obtain ⟨types, places⟩ := Prod.mk.inj same
    obtain rfl : t = t' := types
    exact congrArg (Prod.mk t) (inj t places)
  refine ⟨Origin.moved (recordPath abi) fun p => recordPath abi (carry p),
    ⟨Origin.moved_injective apart carryInjective, fun n => rfl⟩, Origin.movesPlaces_moved,
    fun rest => Origin.moved_of_ne (recordPath_ne (c := 't') rfl (by decide) rest),
    fun rest => Origin.moved_of_ne (recordPath_ne (c := 'a') rfl (by decide) rest), fun name id => ?_⟩
  rcases h.lookup_cases unmoved single hr hr' name with
    ⟨none, none'⟩ | ⟨type, ht, rfl, data, data', records, records', hd, hd', again, found, found'⟩
  · rw [none, none']
    rfl
  · rw [found, found', Option.getD_some, Option.getD_some]
    refine again.find?_eq Origin.movesPlaces_moved (keeps type ht data data' hd hd' id) ?_
    intro i j d hi hj
    have moves := Origin.moves_moved apart (fun p => recordPath abi (carry p)) (⟨type, ht⟩, i)
    have there : σ ⟨type, ht⟩ i = j := carried ⟨type, ht⟩ data data' hd hd' id i j d d hi hj
    rw [show carry (⟨type, ht⟩, i) = (⟨type, ht⟩, j) from Prod.ext rfl there] at moves
    exact moves

end Inputs

/-! ## Tables -/

namespace LinkedFunction

/-- Records are put in a table only if all of them have ids. -/
theorem exists_recordId_of_recordsById {records : List SuppliedRecord} {found : List (Bytes × Datum)}
    (h : recordsById records = .ok found) : ∀ r ∈ records, ∃ id, Inputs.recordId r.value = .ok id := by
  induction records generalizing found with
  | nil =>
    intro r hr
    cases hr
  | cons r rest ih =>
    obtain ⟨own, ho, h⟩ := bind_eq_ok.mp h
    obtain ⟨others, hrest, -⟩ := bind_eq_ok.mp h
    exact List.forall_mem_cons.mpr ⟨⟨own, ho⟩, ih hrest⟩

theorem exists_recordId_of_recordsOf {others : List (String × List SuppliedRecord)}
    {all : List (String × List (Bytes × Datum))} (h : recordsOf others = .ok all) :
    ∀ p ∈ others, ∀ r ∈ p.2, ∃ id, Inputs.recordId r.value = .ok id := by
  induction others generalizing all with
  | nil =>
    intro p hp
    cases hp
  | cons p rest ih =>
    obtain ⟨found, hf, h⟩ := bind_eq_ok.mp h
    obtain ⟨later, hl, -⟩ := bind_eq_ok.mp h
    exact List.forall_mem_cons.mpr ⟨exists_recordId_of_recordsById hf, ih hl⟩

theorem recordsById_eq_error {records : List SuppliedRecord} {why : Misuse}
    (h : recordsById records = .error why) : ∃ r ∈ records, Inputs.recordId r.value = .error why := by
  induction records with
  | nil => cases h
  | cons r rest ih =>
    cases own : Inputs.recordId r.value with
    | error why' =>
      rw [recordsById, own] at h
      cases h
      exact ⟨r, List.mem_cons_self, own⟩
    | ok id =>
      cases later : recordsById rest with
      | error why' =>
        rw [recordsById, own, later] at h
        cases h
        obtain ⟨r', hr', named⟩ := ih later
        exact ⟨r', List.mem_cons_of_mem _ hr', named⟩
      | ok found =>
        rw [recordsById, own, later] at h
        cases h

/-- If no table can be made, then for the id of a record. -/
theorem recordsOf_eq_error {others : List (String × List SuppliedRecord)} {why : Misuse}
    (h : recordsOf others = .error why) :
    ∃ p ∈ others, ∃ r ∈ p.2, Inputs.recordId r.value = .error why := by
  induction others with
  | nil => cases h
  | cons p rest ih =>
    obtain ⟨name, records⟩ := p
    cases own : recordsById records with
    | error why' =>
      rw [recordsOf, own] at h
      cases h
      exact ⟨(name, records), List.mem_cons_self, recordsById_eq_error own⟩
    | ok found =>
      cases later : recordsOf rest with
      | error why' =>
        rw [recordsOf, own, later] at h
        cases h
        obtain ⟨p, hp, r, hr, named⟩ := ih later
        exact ⟨p, List.mem_cons_of_mem _ hp, r, hr, named⟩
      | ok all =>
        rw [recordsOf, own, later] at h
        cases h

/-- If no table can be made of records that have been read, then for an id with parts. -/
theorem recordsOf_eq_error_of_readOthers {abi : Abi} {others : Datum}
    {read : List (String × List SuppliedRecord)} (h : Inputs.readOthers abi others = .ok read)
    {why : Misuse} (fails : recordsOf read = .error why) : why = .property := by
  obtain ⟨p, hp, r, hr, unnamed⟩ := recordsOf_eq_error fails
  obtain ⟨type, ht, -, typed⟩ := Inputs.exists_type_of_readOthers h hp
  obtain ⟨t, held⟩ := Inputs.exists_id_of_readOthers h ht
  cases atom : t.isAtom with
  | true =>
    obtain ⟨id, named⟩ := Inputs.exists_recordId (typed r hr) held atom
    cases named.symm.trans unnamed
  | false =>
    cases (Inputs.recordId_eq_error (typed r hr) held atom).symm.trans unnamed
    rfl

end LinkedFunction

namespace Inputs

open LinkedFunction (recordsOf exists_recordsOf exists_recordId_of_recordsOf
  recordsOf_eq_error_of_readOthers)

variable {abi : Abi} {others others' : Datum} {read read' : List (String × List SuppliedRecord)}

theorem Rereads.exists_recordId {type : RecordType} {data data' : List Datum}
    {records records' : List SuppliedRecord} (h : Rereads type data data' records records')
    (named : ∀ r ∈ records, ∃ id, recordId r.value = .ok id) :
    ∀ r ∈ records', ∃ id, recordId r.value = .ok id := by
  intro r' hr'
  obtain ⟨_, d, hd, made'⟩ := exists_datum_of_readRecords h.read' hr'
  have own := h.perm.symm.subset hd
  obtain ⟨_, r, hr, made⟩ := exists_record_of_readRecords h.read own
  obtain ⟨id, hid⟩ := named r hr
  exact ⟨id, (recordId_eq (h.unmoved d own) made made').trans hid⟩

namespace Reordered

/-- Records that all have ids have them in any order. -/
theorem exists_recordId (h : Reordered others others') (unmoved : others.Unmoved) (single : abi.Single)
    (hr : readOthers abi others = .ok read) (hr' : readOthers abi others' = .ok read')
    (named : ∀ p ∈ read, ∀ r ∈ p.2, ∃ id, recordId r.value = .ok id) :
    ∀ p ∈ read', ∀ r ∈ p.2, ∃ id, recordId r.value = .ok id := by
  intro p hp
  obtain ⟨type, ht, -, data, hd, made⟩ := exists_of_readOthers hr' hp
  rcases h.lookup_cases unmoved single hr hr' type.name with
    ⟨none, -⟩ | ⟨type', ht', same, _, data', records, records', -, hd', again, found, -⟩
  · obtain ⟨_, _, -, -, found⟩ := exists_lookup_of_readOthers single hr ht
    cases none.symm.trans found
  · obtain rfl := single type ht type' ht' same.symm
    cases hd.symm.trans hd'
    cases made.symm.trans again.read'
    exact again.exists_recordId (named _ (mem_of_lookup found))

/-- The tables of records in two orders are the same but for marks, or there is none for either. -/
theorem tables_cases (h : Reordered others others') (unmoved : others.Unmoved)
    (unmoved' : others'.Unmoved) (single : abi.Single) (hr : readOthers abi others = .ok read)
    (hr' : readOthers abi others' = .ok read') {g : Origin → Origin}
    (lookups : ∀ name id, ((read'.lookup name).getD []).reverse.find? (·.hasId id) =
      (((read.lookup name).getD []).reverse.find? (·.hasId id)).map (SuppliedRecord.remarked g))
    {key key' : Option Key} (same : key' = key) :
    (recordsOf read = .error .property ∧ recordsOf read' = .error .property) ∨
      ∃ all all', recordsOf read = .ok all ∧ recordsOf read' = .ok all' ∧
        Surroundings.Remarked g ⟨key, all⟩ ⟨key', all'⟩ := by
  cases found : recordsOf read with
  | ok all =>
    have named := exists_recordId_of_recordsOf found
    obtain ⟨all, stand, byId⟩ := exists_recordsOf named
    obtain ⟨all', stand', byId'⟩ := exists_recordsOf (h.exists_recordId unmoved single hr hr' named)
    cases found.symm.trans stand
    refine .inr ⟨all, all', rfl, stand', same, fun contract id => ?_⟩
    rw [byId, byId', lookups]
    cases ((read.lookup contract).getD []).reverse.find? (·.hasId id) with
    | none => rfl
    | some r => exact congrArg some (Value.toDatum_remarked (.struct r.value))
  | error why =>
    obtain rfl := recordsOf_eq_error_of_readOthers hr found
    cases found' : recordsOf read' with
    | error why => exact .inl ⟨rfl, congrArg Except.error (recordsOf_eq_error_of_readOthers hr' found')⟩
    | ok all' =>
      have named' := exists_recordId_of_recordsOf found'
      obtain ⟨all, stand, -⟩ := exists_recordsOf (h.symm.exists_recordId unmoved' single hr' hr named')
      cases found.symm.trans stand

end Reordered

end Inputs

end Covenant
