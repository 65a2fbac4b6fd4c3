import Covenant.Proofs.Compile.Acceptance
import Covenant.Proofs.Compile.Passages
/-!
The references that a function follows on every way are reference fields of its receiver.
-/

namespace Covenant

/-- The name of a field of the receiver that holds a reference. -/
def Layout.HasReference (l : Layout) (name : String) : Prop :=
  ∃ contract, l.this.field? name = some (.reference contract)

variable {l : Layout}

theorem Term.forall_followedByItems {P : String → Prop} {items : List Term}
    (each : ∀ t ∈ items, ∀ name ∈ t.followed, P name) : ∀ name ∈ followedByItems items, P name := by
  induction items with
  | nil => exact nofun
  | cons t rest ih =>
    rw [List.forall_mem_cons] at each
    exact List.forall_mem_append.mpr ⟨each.1, ih each.2⟩

theorem HasType.followed {t : Term} {type : Ty} (h : HasType l t type) :
    ∀ name ∈ t.followed, l.HasReference name := by
  induction h with
  | literal | slot | field | caller => exact nofun
  | member _ _ _ ih | arraySize _ ih | textSize _ ih | not _ ih | truth _ _ ih | negate _ _ ih => exact ih
  | referenced whole _ _ ih =>
    intro name followed
    -- a reference in a field is followed itself; any other one is a value that the term computes first
    rcases Term.mem_followed_referenced followed with rfl | followed
    · cases whole with
      | field held => exact ⟨_, held⟩
    · exact ih name followed
  | element _ _ _ ih ih' | indexOf _ _ ih ih' | includes _ _ ih ih' | appended _ _ ih ih'
  | arith _ _ _ _ ih ih' | join _ _ ih ih' | compare _ _ _ ih ih' =>
    exact List.forall_mem_append.mpr ⟨ih, ih'⟩
  | array _ ih => exact Term.forall_followedByItems ih
  | both _ _ ih _ | either _ _ ih _ => exact ih

theorem Along.followed {whole type type' : Ty} {path : List PathStep} {read value : Term}
    (along : Along l whole path type) (first : HasType l read whole) (stored : HasType l value type') :
    ∀ name ∈ Term.followedAlong read value path, l.HasReference name := by
  induction along generalizing read with
  | nil => exact stored.followed
  | member found named _ ih =>
    exact List.forall_mem_append.mpr ⟨first.followed, ih (.member first found named)⟩
  | element place integer _ ih =>
    exact List.forall_mem_append.mpr ⟨List.forall_mem_append.mpr ⟨first.followed, place.followed⟩,
      ih (.element first place integer)⟩

theorem Action.forall_followedByAll {P : String → Prop} {actions : List Action}
    (each : ∀ a ∈ actions, ∀ name ∈ a.followed, P name) : ∀ name ∈ followedByAll actions, P name := by
  induction actions with
  | nil => exact nofun
  | cons a rest ih =>
    rw [List.forall_mem_cons] at each
    refine List.forall_mem_append.mpr ⟨each.1, fun name followed => ?_⟩
    split at followed
    · cases followed
    · exact ih each.2 name followed

theorem Action.WellTyped.followed {result : Option Ty} {a : Action} (h : a.WellTyped l result) :
    ∀ name ∈ a.followed, l.HasReference name := by
  induction h with
  | sequence _ ih => exact forall_followedByAll ih
  | assign first along stored => exact along.followed first stored
  | ifThen test _ _ | ifElse test _ _ _ _ | loop test _ _ => exact test.followed
  | leave => exact nofun
  | leaveWith _ value | abort value | evaluate value => exact value.followed

theorem Policy.Refers.followed {schema : Schema} {this : RecordType} {p : Policy}
    (h : p.Refers schema this) {name : String} (followed : name ∈ p.followed) :
    ∃ contract, this.field? name = some (.reference contract) := by
  obtain ⟨contract, delegateField, rfl⟩ := mem_followed followed
  cases h with
  | delegate held => exact ⟨contract, held⟩

/-- What a function requires are reference fields of its record. -/
theorem CheckedFunction.Sound.followed {schema : Schema} {record : RecordSchema} {f : CheckedFunction}
    (sound : f.Sound schema record) {name : String} (followed : name ∈ f.followed) :
    ∃ contract, record.type.field? name = some (.reference contract) := by
  rcases List.mem_append.mp (mem_of_mem_firstUses followed) with policy | body
  · split at policy
    · cases policy
    · exact sound.policy.followed policy
  · exact sound.body.followed name body

end Covenant
