import Covenant.Proofs.Except
import Covenant.Proofs.Key.Codec
import Covenant.Value.Json
/-!
How reading data as values can fail: it refuses whatever does not fit, and goes astray on integers too
large to be made a double or to be written in a message, and on kinds of keys that no message can quote.

* `FaultsAmong`: a reading that is misused for given reasons only, and refuses empty references at given
  paths only;
* `Value.Overflows`: a number too large stands where a type asks for one, or one that cannot be quoted where
  it asks for a key;
* `Value.faultsAmong_ofJson`: reading a value is misused for no other reason, and refuses no empty
  references.
-/

namespace Covenant

/-- A fault that is a misuse for given reasons only, and the refusal of an empty reference at given paths
only. -/
def CallFault.Among (P : Misuse → Prop) (E : String → Prop) : CallFault → Prop
  | .misuse why => P why
  | .unsuitable path (.emptyReference _) => E path
  | _ => True

/-- A reading that fails with such faults only. -/
def FaultsAmong {α : Type} (P : Misuse → Prop) (E : String → Prop) (r : Except CallFault α) : Prop :=
  ∀ fault, r = .error fault → fault.Among P E

namespace FaultsAmong

variable {α β : Type} {P Q : Misuse → Prop} {E : String → Prop}

theorem ok (a : α) : FaultsAmong P E (.ok a) := fun _ h => nomatch h

theorem pure (a : α) : FaultsAmong P E (Pure.pure a) := ok a

theorem error {fault : CallFault} (h : fault.Among P E) :
    FaultsAmong P E (.error fault : Except CallFault α) := by
  intro other same
  cases same
  exact h

theorem refuse {path : String} {why : Unsuitable} (h : (CallFault.unsuitable path why).Among P E) :
    FaultsAmong P E (Value.refuse path why : Except CallFault α) := error h

theorem mono {r : Except CallFault α} (h : FaultsAmong P E r) (le : ∀ why, P why → Q why) :
    FaultsAmong Q E r := by
  intro fault hr
  have among := h fault hr
  unfold CallFault.Among at among ⊢
  split at among
  · exact le _ among
  · exact among
  · exact among

theorem bind {r : Except CallFault α} {f : α → Except CallFault β} (hr : FaultsAmong P E r)
    (hf : ∀ a, r = .ok a → FaultsAmong P E (f a)) : FaultsAmong P E (r >>= f) := by
  cases r with
  | ok a => exact hf a rfl
  | error fault => exact error (hr fault rfl)

/-- A list is gone through without other faults than those of its parts. -/
theorem mapM {f : α → Except CallFault β} {l : List α} (each : ∀ a ∈ l, FaultsAmong P E (f a)) :
    FaultsAmong P E (l.mapM f) := by
  induction l with
  | nil => exact pure []
  | cons a rest ih =>
    rw [List.forall_mem_cons] at each
    rw [List.mapM_cons]
    exact bind each.1 fun b _ => bind (ih each.2) fun bs _ => pure _

theorem forM {f : α → Except CallFault Unit} {l : List α} (each : ∀ a ∈ l, FaultsAmong P E (f a)) :
    FaultsAmong P E (l.forM f) := by
  induction l with
  | nil => exact pure ()
  | cons a rest ih =>
    rw [List.forall_mem_cons] at each
    exact bind each.1 fun _ _ => ih each.2

theorem optionMapM {f : α → Except CallFault β} {o : Option α} (each : ∀ a, o = some a → FaultsAmong P E (f a)) :
    FaultsAmong P E (o.mapM f) := by
  cases o with
  | none => exact pure none
  | some a =>
    rw [Option.mapM_some]
    cases made : f a with
    | ok b => exact ok (some b)
    | error fault => exact error (each a rfl fault made)

end FaultsAmong

namespace Value

open Json (itemPath)

variable {P : Misuse → Prop} {E : String → Prop}

/-- Where a type asks for a number stands one that is too large: an integer beyond the doubles where a
double is read, or one of more digits than can be written where an integer is read. Or a key is asked for,
and what names its kind holds such a number or is nested too deep. -/
inductive Overflows : Ty → Datum → Misuse → Prop
  | double {p : Primitive} {i : Int} (float : p.isFloat = true)
      (large : (Double.ofInt i).isInfinite = true) : Overflows (.primitive p) (.integer i) .magnitude
  | integer {p : Primitive} {path : String} {d : Datum} {i : Int} (integer : p.isInteger = true)
      (read : readInteger p path d = .ok i) (large : Nat.pow 10 Text.digitLimit ≤ i.natAbs) :
      Overflows (.primitive p) d .domain
  | key {d : Datum} (unquotable : Key.Unquotable d) : Overflows .publicKey d .domain
  | item {element : Ty} {items : List Datum} {d : Datum} {why : Misuse} (here : d ∈ items)
      (large : Overflows element d why) : Overflows (.array element) (.list items) why
  | member {record name : String} {types : List (String × Ty)} {fields : Fields} {type : Ty} {d : Datum}
      {why : Misuse} (field : (name, type) ∈ types) (given : fields.lookup name = some d)
      (large : Overflows type d why) : Overflows (.struct record types) (.record fields) why

theorem faultsAmong_readFloat {p : Primitive} (float : p.isFloat = true) (path : String) (d : Datum) :
    FaultsAmong (Overflows (.primitive p) d) E (readFloat p path d) := by
  cases d with
  | float x => exact .ok _
  | integer i =>
    unfold readFloat Datum.Number.toDouble
    dsimp only
    split
    · exact .ok _
    next made =>
      split at made
      next large =>
        cases made
        exact .error (.double float large)
      next => cases made
  | _ => exact .refuse trivial

theorem faultsAmong_readInteger (p : Primitive) (path : String) (d : Datum) :
    FaultsAmong P E (readInteger p path d) := by
  unfold readInteger
  split
  · exact .ok _
  · split
    · exact .ok _
    · exact .refuse trivial
  · split
    · exact .ok _
    · exact .refuse trivial
  · exact .refuse trivial
  · exact .refuse trivial

theorem faultsAmong_inRange {p : Primitive} (integer : p.isInteger = true) {path : String} {d : Datum} {i : Int}
    (read : readInteger p path d = .ok i) (low high : Int) :
    FaultsAmong (Overflows (.primitive p) d) E
      (if low ≤ i ∧ i ≤ high then pure (Datum.integer i) else refuseRange p path i) := by
  split
  · exact .pure _
  · unfold refuseRange
    split
    · exact .refuse trivial
    next large => exact .error (.integer integer read (Nat.le_of_not_lt large))

theorem faultsAmong_readScalar (p : Primitive) (path : String) (d : Datum) :
    FaultsAmong (Overflows (.primitive p) d) E (readScalar p path d) := by
  cases p with
  | boolean | string =>
    unfold readScalar
    dsimp only
    split
    · exact .ok _
    · exact .refuse trivial
  | bytes =>
    unfold readScalar
    dsimp only
    split
    · split
      · exact .ok _
      · exact .refuse trivial
    · exact .refuse trivial
  | f32 | f64 => exact .bind (faultsAmong_readFloat rfl path d) fun x _ => .pure _
  | u32 | u64 | i32 | i64 =>
    exact .bind (faultsAmong_readInteger _ path d) fun i read => faultsAmong_inRange rfl read _ _

theorem faultsAmong_readItems {f : String → Datum → Except CallFault Value}
    {data : List Datum} (each : ∀ path, ∀ d ∈ data, FaultsAmong P E (f path d)) (path : String) (i : Nat) :
    FaultsAmong P E (readItems f path i data) := by
  induction data generalizing i with
  | nil => exact .ok []
  | cons d rest ih =>
    have first := each (itemPath path i) d List.mem_cons_self
    have others := ih (fun path d hd => each path d (List.mem_cons_of_mem _ hd)) (i + 1)
    exact .bind first fun v _ => .bind others fun vs _ => .pure _

theorem faultsAmong_membersOf (path record : String) (types : List (String × Ty))
    (d : Datum) : FaultsAmong P E (membersOf path record types d) := by
  unfold membersOf
  split
  · split
    · exact .refuse trivial
    · exact .ok _
  · exact .refuse trivial

/-- The members that a struct is read from are those of a record. -/
theorem eq_record_of_membersOf {path record : String} {types : List (String × Ty)} {d : Datum}
    {fields : Fields} (h : membersOf path record types d = .ok fields) : d = .record fields := by
  unfold membersOf at h
  split at h
  · split at h <;> cases h
    rfl
  · cases h

mutual
/-- Reading a value refuses what does not fit, but for what is too large. -/
theorem faultsAmong_ofJson : ∀ (type : Ty) (path : String) (d : Datum),
    FaultsAmong (Overflows type d) E (ofJson path type d)
  | .primitive p, path, d => .bind (faultsAmong_readScalar p path d) fun r _ => .pure _
  | .publicKey, path, d => by
    unfold ofJson
    split
    · exact .ok _
    · split
      · exact .ok _
      next read => exact .error (.key (Key.unquotable_of_readDatum read))
      · exact .refuse trivial
  | .reference contract, path, d => by
    rw [ofJson]
    split
    · exact .ok _
    · exact .refuse trivial
  | .array element, path, d => by
    unfold ofJson
    split
    · next items =>
      refine .bind (faultsAmong_readItems (fun path d hd => ?_) path 0) fun vs _ => .pure _
      exact (faultsAmong_ofJson element path d).mono fun why => .item hd
    · exact .refuse trivial
  | .struct name types, path, d => by
    rw [ofJson]
    refine .bind (faultsAmong_membersOf path name types d) fun fields hf => ?_
    obtain rfl := eq_record_of_membersOf hf
    refine .bind ((faultsAmong_ofJsonFields types path fields).mono ?_) fun vs _ => .pure _
    rintro why ⟨f, hf, d, given, large⟩
    exact .member hf given large

theorem faultsAmong_ofJsonFields : ∀ (types : List (String × Ty)) (path : String) (fields : Fields),
    FaultsAmong (fun why => ∃ f ∈ types, ∃ d, fields.lookup f.1 = some d ∧ Overflows f.2 d why) E
      (ofJsonFields path types fields)
  | [], path, fields => .ok []
  | (name, type) :: rest, path, fields => by
    rw [ofJsonFields]
    split
    · exact .refuse trivial
    · next d given =>
      have first := faultsAmong_ofJson type (path ++ "." ++ name) d
      have others := faultsAmong_ofJsonFields rest path fields
      refine .bind (first.mono fun why large => ?_) fun v _ => .bind (others.mono ?_) fun vs _ => .pure _
      · exact ⟨_, List.mem_cons_self, d, given, large⟩
      · rintro why ⟨f, hf, found⟩
        exact ⟨f, List.mem_cons_of_mem _ hf, found⟩
end

end Value

end Covenant
