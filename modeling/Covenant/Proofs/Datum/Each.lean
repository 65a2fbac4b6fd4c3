import Covenant.Proofs.Datum.Access
/-!
Properties of the parts that data are made of.

* `Datum.Each`: every part of a datum without parts of its own has a property;
* `Datum.NanFree`: no part of a datum is a result that is no number.
-/

namespace Covenant.Datum

inductive Each (P : Datum → Prop) : Datum → Prop
  | atom {d : Datum} (plain : d.isAtom = true) (holds : P d) : Each P d
  | list {items : List Datum} (each : ∀ d ∈ items, Each P d) : Each P (.list items)
  | record {fields : Fields} (each : ∀ m ∈ fields, Each P m.2) : Each P (.record fields)

variable {P : Datum → Prop}

theorem each_atom {d : Datum} (plain : d.isAtom = true) : d.Each P ↔ P d := by
  refine ⟨fun h => ?_, .atom plain⟩
  cases h with
  | atom _ holds => exact holds
  | list | record => cases plain

@[simp] theorem each_text (s : String) : (text s).Each P ↔ P (text s) := each_atom rfl

@[simp] theorem each_bytes (b : Bytes) : (bytes b).Each P ↔ P (bytes b) := each_atom rfl

@[simp] theorem each_integer (i : Int) : (integer i).Each P ↔ P (integer i) := each_atom rfl

@[simp] theorem each_float (x : Double) : (float x).Each P ↔ P (float x) := each_atom rfl

@[simp] theorem each_list {items : List Datum} : (list items).Each P ↔ ∀ d ∈ items, d.Each P := by
  refine ⟨fun h => ?_, .list⟩
  cases h with
  | atom plain => cases plain
  | list each => exact each

@[simp] theorem each_record {fields : Fields} : (record fields).Each P ↔ ∀ m ∈ fields, m.2.Each P := by
  refine ⟨fun h => ?_, .record⟩
  cases h with
  | atom plain => cases plain
  | record each => exact each

theorem each_ofMembers {members : Fields} (each : ∀ m ∈ members, m.2.Each P) :
    (record (ofMembers members)).Each P :=
  .record fun _ hm => each _ (mem_of_mem_ofMembers hm)

def NanFree (d : Datum) : Prop := d.Each fun a => ∀ x, a = .float x → x.isNan = false

end Covenant.Datum
