import Covenant.Proofs.Except
import Covenant.Proofs.Value.Misuse
/-!
Where reading data as values refuses them.

* `Value.Rejects`: what a type has against a datum before any part of it is looked at;
* `Value.FirstMisfit`: the first misfit of a datum in the order of reading, with the steps that lead to it
  and everything before it read;
* `Value.refuses_first_misfit`: a refusal is that of the first misfit, at the path of its steps.
-/

namespace Covenant.Value

open Json (itemPath)

inductive Step
  | member (name : String)
  | item (i : Nat)
deriving DecidableEq, Repr

def Step.after (path : String) : Step → String
  | .member name => path ++ "." ++ name
  | .item i => itemPath path i

/-- The integer that a datum stands for where one is read. -/
inductive StandsFor : Datum → Int → Prop
  | integer (i : Int) : StandsFor (.integer i) i
  | text {s : String} {i : Int} (h : Text.integer? s.toList = some i) : StandsFor (.text s) i
  | float {x : Double} {i : Int} (h : x.toInt? = some i) : StandsFor (.float x) i

/-- What is wrong with a datum as one of a type on the outside: parts of lists and records do not
count. -/
inductive Rejects : Ty → Datum → Unsuitable → Prop
  | boolean {d : Datum} (other : ∀ b, d ≠ .boolean b) :
      Rejects (.primitive .boolean) d (.kind "boolean" d.kindName)
  | string {d : Datum} (other : ∀ s, d ≠ .text s) :
      Rejects (.primitive .string) d (.kind "string" d.kindName)
  | bytes {d : Datum} (other : ∀ s, d ≠ .text s) : Rejects (.primitive .bytes) d .notBase64Text
  | base64 {s : String} {fault : Text.Base64.Fault} (bad : Text.Base64.readStrict s.toList = .error fault) :
      Rejects (.primitive .bytes) (.text s) (.base64 fault)
  | float {p : Primitive} {d : Datum} (float : p.isFloat = true) (noFloat : ∀ x, d ≠ .float x)
      (noInteger : ∀ i, d ≠ .integer i) : Rejects (.primitive p) d (.kind p.name d.kindName)
  | truth {p : Primitive} (integer : p.isInteger = true) (b : Bool) :
      Rejects (.primitive p) (.boolean b) (.kind p.name "boolean")
  | integer {p : Primitive} {d : Datum} (integer : p.isInteger = true) (noTruth : ∀ b, d ≠ .boolean b)
      (noInteger : ∀ i, d ≠ .integer i) (noText : ∀ s, d ≠ .text s) (noFloat : ∀ x, d ≠ .float x) :
      Rejects (.primitive p) d (.kind p.name d.kindName)
  | numeral {p : Primitive} {s : String} (integer : p.isInteger = true)
      (bad : Text.integer? s.toList = none) : Rejects (.primitive p) (.text s) (.notInteger p (.text s))
  | whole {p : Primitive} {x : Double} (integer : p.isInteger = true) (bad : x.toInt? = none) :
      Rejects (.primitive p) (.float x) (.notInteger p (.float x))
  /-- an integer out of range, of no more digits than can be written in the refusal -/
  | range {p : Primitive} {d : Datum} {i low high : Int} (range : p.range? = some (low, high))
      (stands : StandsFor d i) (outside : ¬ (low ≤ i ∧ i ≤ high))
      (short : i.natAbs < Nat.pow 10 Text.digitLimit) : Rejects (.primitive p) d (.range i p)
  /-- no key, and of no kind that the refusal cannot quote -/
  | key {d : Datum} {fault : KeyFault} (given : d ≠ .null) (bad : Key.ofDatum d = .error fault)
      (quoted : fault ≠ .unquotable) : Rejects .publicKey d (.key fault)
  | reference {contract : String} {d : Datum} (other : ∀ id, referenceId d ≠ .text id) :
      Rejects (.reference contract) d (.reference contract)
  | array {element : Ty} {d : Datum} (other : ∀ items, d ≠ .list items) :
      Rejects (.array element) d (.kind "array" d.kindName)
  | struct {name : String} {types : List (String × Ty)} {d : Datum} (other : ∀ fields, d ≠ .record fields) :
      Rejects (.struct name types) d (.kind "object" d.kindName)

/-- Items from the start of a list are read without error, each at its path. -/
def ReadsItems (path : String) (element : Ty) (items : List Datum) : Prop :=
  ∀ i d, items[i]? = some d → ∃ v, ofJson (Step.after path (.item i)) element d = .ok v

/-- The fields of a struct are given and read without error, each at its path. -/
def ReadsFields (path : String) (types : List (String × Ty)) (fields : Fields) : Prop :=
  ∀ f ∈ types, ∃ d v, fields.lookup f.1 = some d ∧ ofJson (Step.after path (.member f.1)) f.2 d = .ok v

/-- Members that are all named by fields. -/
def Known (types : List (String × Ty)) (fields : Fields) : Prop :=
  ∀ m ∈ fields, m.1 ∈ types.map Prod.fst

/-- The first misfit in a datum that is read at a path: the steps that lead to it, and what is wrong there.
Of a record the names of all members come first, then the fields in the order of the type. -/
inductive FirstMisfit : String → Ty → Datum → List Step → Unsuitable → Prop
  | here {path : String} {t : Ty} {d : Datum} {why : Unsuitable} (rejects : Rejects t d why) :
      FirstMisfit path t d [] why
  | unknown {path record name : String} {types : List (String × Ty)} {before after : Fields} {d : Datum}
      (known : Known types before) (other : name ∉ types.map Prod.fst) :
      FirstMisfit path (.struct record types) (.record (before ++ (name, d) :: after)) [.member name]
        (.unknownField record)
  | missing {path record name : String} {t : Ty} {before after : List (String × Ty)} {fields : Fields}
      (known : Known (before ++ (name, t) :: after) fields) (read : ReadsFields path before fields)
      (absent : fields.lookup name = none) :
      FirstMisfit path (.struct record (before ++ (name, t) :: after)) (.record fields) [.member name]
        .missingField
  | member {path record name : String} {t : Ty} {before after : List (String × Ty)} {fields : Fields}
      {d : Datum} {steps : List Step} {why : Unsuitable}
      (known : Known (before ++ (name, t) :: after) fields) (read : ReadsFields path before fields)
      (given : fields.lookup name = some d)
      (inside : FirstMisfit (Step.after path (.member name)) t d steps why) :
      FirstMisfit path (.struct record (before ++ (name, t) :: after)) (.record fields)
        (.member name :: steps) why
  | item {path : String} {element : Ty} {before after : List Datum} {d : Datum} {steps : List Step}
      {why : Unsuitable} (read : ReadsItems path element before)
      (inside : FirstMisfit (Step.after path (.item before.length)) element d steps why) :
      FirstMisfit path (.array element) (.list (before ++ d :: after)) (.item before.length :: steps) why

/-! ## Scalars -/

variable {α : Type} {path field : String} {d : Datum} {why : Unsuitable}

/-- A refusal is one at its own path and for its own reason. -/
theorem refuse_eq_error {why' : Unsuitable} :
    (refuse path why' : Except CallFault α) = .error (.unsuitable field why) ↔ field = path ∧ why = why' := by
  rw [refuse, Except.error.injEq, CallFault.unsuitable.injEq, eq_comm, @eq_comm _ why']

theorem standsFor_iff {p : Primitive} {i : Int} : StandsFor d i ↔ readInteger p path d = .ok i := by
  constructor
  · intro h
    cases h with
    | integer i => rfl
    | text h => simp only [readInteger, h]
    | float h => simp only [readInteger, h]
  · intro h
    unfold readInteger at h
    split at h
    · cases h
      exact .integer i
    · split at h
      next j hj =>
        cases h
        exact .text hj
      next => cases h
    · split at h
      next j hj =>
        cases h
        exact .float hj
      next => cases h
    · cases h
    · cases h

theorem rejects_of_readInteger {p : Primitive} (integer : p.isInteger = true)
    (h : readInteger p path d = .error (.unsuitable field why)) :
    field = path ∧ Rejects (.primitive p) d why := by
  unfold readInteger at h
  split at h
  · cases h
  · split at h
    · cases h
    next bad =>
      obtain ⟨rfl, rfl⟩ := refuse_eq_error.mp h
      exact ⟨rfl, .numeral integer bad⟩
  · split at h
    · cases h
    next bad =>
      obtain ⟨rfl, rfl⟩ := refuse_eq_error.mp h
      exact ⟨rfl, .whole integer bad⟩
  next b =>
    obtain ⟨rfl, rfl⟩ := refuse_eq_error.mp h
    exact ⟨rfl, .truth integer b⟩
  next noInteger noText noFloat noTruth =>
    obtain ⟨rfl, rfl⟩ := refuse_eq_error.mp h
    exact ⟨rfl, .integer integer noTruth noInteger noText noFloat⟩

theorem rejects_of_readFloat {p : Primitive} (float : p.isFloat = true)
    (h : readFloat p path d = .error (.unsuitable field why)) :
    field = path ∧ Rejects (.primitive p) d why := by
  unfold readFloat at h
  dsimp only at h
  split at h
  · cases h
  · split at h <;> cases h
  next noFloat noInteger =>
    obtain ⟨rfl, rfl⟩ := refuse_eq_error.mp h
    exact ⟨rfl, .float float noFloat noInteger⟩

theorem rejects_of_refuseRange {p : Primitive} {i low high : Int} (range : p.range? = some (low, high))
    (stands : StandsFor d i) (h : (if low ≤ i ∧ i ≤ high then pure (Datum.integer i)
      else refuseRange p path i) = .error (.unsuitable field why)) :
    field = path ∧ Rejects (.primitive p) d why := by
  split at h
  · cases h
  next outside =>
    unfold refuseRange at h
    split at h
    next short =>
      obtain ⟨rfl, rfl⟩ := refuse_eq_error.mp h
      exact ⟨rfl, .range range stands outside short⟩
    next => cases h

theorem rejects_of_readScalar {p : Primitive} (h : readScalar p path d = .error (.unsuitable field why)) :
    field = path ∧ Rejects (.primitive p) d why := by
  cases p with
  | boolean =>
    unfold readScalar at h
    dsimp only at h
    split at h
    · cases h
    next other =>
      obtain ⟨rfl, rfl⟩ := refuse_eq_error.mp h
      exact ⟨rfl, .boolean other⟩
  | string =>
    unfold readScalar at h
    dsimp only at h
    split at h
    · cases h
    next other =>
      obtain ⟨rfl, rfl⟩ := refuse_eq_error.mp h
      exact ⟨rfl, .string other⟩
  | bytes =>
    unfold readScalar at h
    dsimp only at h
    split at h
    · split at h
      · cases h
      next bad =>
        obtain ⟨rfl, rfl⟩ := refuse_eq_error.mp h
        exact ⟨rfl, .base64 bad⟩
    next other =>
      obtain ⟨rfl, rfl⟩ := refuse_eq_error.mp h
      exact ⟨rfl, .bytes other⟩
  | f32 | f64 => exact rejects_of_readFloat rfl (bind_pure_eq_error.mp h)
  | u32 | u64 | i32 | i64 =>
    rcases bind_eq_error.mp h with h | ⟨i, read, h⟩
    · exact rejects_of_readInteger rfl h
    · exact rejects_of_refuseRange rfl (standsFor_iff.mpr read) h

theorem readScalar_of_rejects {p : Primitive} (path : String) (h : Rejects (.primitive p) d why) :
    readScalar p path d = .error (.unsuitable path why) := by
  -- where an integer is read, what is refused is the reading or the range
  have integers {low high : Int} (range : p.range? = some (low, high)) : readScalar p path d = (do
      let i ← readInteger p path d
      if low ≤ i ∧ i ≤ high then return .integer i else refuseRange p path i) := by
    cases p <;> cases range <;> rfl
  have unread (integer : p.isInteger = true) {why : Unsuitable}
      (h : readInteger p path d = refuse path why) :
      readScalar p path d = .error (.unsuitable path why) := by
    obtain ⟨⟨low, high⟩, range⟩ := Option.isSome_iff_exists.mp integer
    rw [integers range, h]
    rfl
  cases h with
  | boolean other =>
    cases d with
    | boolean b => exact absurd rfl (other b)
    | _ => rfl
  | string other =>
    cases d with
    | text s => exact absurd rfl (other s)
    | _ => rfl
  | bytes other =>
    cases d with
    | text s => exact absurd rfl (other s)
    | _ => rfl
  | base64 bad => simp only [readScalar, bad, refuse]
  | float float noFloat noInteger =>
    have unread : readFloat p path d = refuse path (.kind p.name d.kindName) := by
      cases d with
      | float x => exact absurd rfl (noFloat x)
      | integer i => exact absurd rfl (noInteger i)
      | _ => rfl
    cases p with
    | f32 | f64 => exact bind_eq_error.mpr (.inl unread)
    | _ => cases float
  | truth integer b => exact unread integer rfl
  | integer integer noTruth noInteger noText noFloat =>
    refine unread integer ?_
    cases d with
    | boolean b => exact absurd rfl (noTruth b)
    | integer i => exact absurd rfl (noInteger i)
    | text s => exact absurd rfl (noText s)
    | float x => exact absurd rfl (noFloat x)
    | _ => rfl
  | numeral integer bad => exact unread integer (by simp only [readInteger, bad])
  | whole integer bad => exact unread integer (by simp only [readInteger, bad])
  | range range stands outside short =>
    rw [integers range, standsFor_iff.mp stands, ok_bind, if_neg outside, refuseRange, if_pos short, refuse]

/-! ## Lists and records -/

theorem readItems_eq_error_iff {element : Ty} {i : Nat} {items : List Datum} {fault : CallFault} :
    readItems (fun path d => ofJson path element d) path i items = .error fault ↔
      ∃ before d after, items = before ++ d :: after ∧
        (∀ k d', before[k]? = some d' → ∃ v, ofJson (itemPath path (i + k)) element d' = .ok v) ∧
        ofJson (itemPath path (i + before.length)) element d = .error fault := by
  induction items generalizing i with
  | nil => simp [readItems]
  | cons first rest ih =>
    rw [readItems, bind_eq_error]
    simp only [bind_pure_eq_error, ih]
    constructor
    · rintro (bad | ⟨v, hv, before, d, after, rfl, read, bad⟩)
      · exact ⟨[], first, rest, rfl, by simp, bad⟩
      · refine ⟨first :: before, d, after, rfl, fun k d' hk => ?_, ?_⟩
        · cases k with
          | zero =>
            cases hk
            exact ⟨v, hv⟩
          | succ k =>
            rw [← Nat.succ_add_eq_add_succ]
            exact read k d' hk
        · rw [List.length_cons, ← Nat.succ_add_eq_add_succ]
          exact bad
    · rintro ⟨before, d, after, cut, read, bad⟩
      cases before with
      | nil =>
        cases cut
        exact .inl bad
      | cons d' before =>
        cases cut
        obtain ⟨v, hv⟩ := read 0 first rfl
        refine .inr ⟨v, hv, before, d, after, rfl, fun k d' hk => ?_, ?_⟩
        · rw [Nat.succ_add_eq_add_succ]
          exact read (k + 1) d' hk
        · rw [Nat.succ_add_eq_add_succ]
          exact bad

/-- What is wrong with a field of a record: it is missing, or what is given for it cannot be read. -/
def FieldFails (path : String) (name : String) (t : Ty) (fields : Fields) (fault : CallFault) : Prop :=
  (fields.lookup name = none ∧ fault = .unsuitable (Step.after path (.member name)) .missingField) ∨
    ∃ d, fields.lookup name = some d ∧ ofJson (Step.after path (.member name)) t d = .error fault

/-- A field of a record is given and can be read, or not. -/
theorem ofJsonFields_cons_eq_error {name : String} {t : Ty} {rest : List (String × Ty)} {fields : Fields}
    {fault : CallFault} : ofJsonFields path ((name, t) :: rest) fields = .error fault ↔
      FieldFails path name t fields fault ∨ (ReadsFields path [(name, t)] fields ∧
        ofJsonFields path rest fields = .error fault) := by
  rw [ofJsonFields, FieldFails, ReadsFields, List.forall_mem_singleton]
  cases given : fields.lookup name with
  | none => simp [refuse, Step.after, eq_comm]
  | some d =>
    dsimp only
    rw [bind_eq_error]
    simp only [bind_pure_eq_error, Step.after, Option.some.injEq, reduceCtorEq, false_and, false_or,
      exists_eq_left', exists_and_left, exists_and_right]

theorem readsFields_cons {f : String × Ty} {types : List (String × Ty)} {fields : Fields} :
    ReadsFields path (f :: types) fields ↔ ReadsFields path [f] fields ∧ ReadsFields path types fields := by
  simp only [ReadsFields, List.forall_mem_cons, List.not_mem_nil, false_implies, implies_true, and_true]

theorem ofJsonFields_eq_error_iff {types : List (String × Ty)} {fields : Fields} {fault : CallFault} :
    ofJsonFields path types fields = .error fault ↔
      ∃ before name t after, types = before ++ (name, t) :: after ∧ ReadsFields path before fields ∧
        FieldFails path name t fields fault := by
  induction types with
  | nil => simp [ofJsonFields]
  | cons f rest ih =>
    obtain ⟨first, t₀⟩ := f
    rw [ofJsonFields_cons_eq_error, ih]
    constructor
    · rintro (bad | ⟨read, before, name, t, after, rfl, others, bad⟩)
      · exact ⟨[], first, t₀, rest, rfl, by simp [ReadsFields], bad⟩
      · exact ⟨(first, t₀) :: before, name, t, after, rfl, readsFields_cons.mpr ⟨read, others⟩, bad⟩
    · rintro ⟨before, name, t, after, cut, read, bad⟩
      cases before with
      | nil =>
        cases cut
        exact .inl bad
      | cons f before =>
        cases cut
        rw [readsFields_cons] at read
        exact .inr ⟨read.1, before, name, t, after, rfl, read.2, bad⟩

/-- The first member of a record that no field names. -/
theorem find?_unknown_eq_some {types : List (String × Ty)} {fields : Fields} {m : String × Datum} :
    (fields.find? fun f => !(types.map (·.1)).contains f.1) = some m ↔
      m.1 ∉ types.map Prod.fst ∧ ∃ before after, fields = before ++ m :: after ∧ Known types before := by
  simp only [List.find?_eq_some_iff_append, Known, Bool.not_eq_true', List.contains_eq_mem,
    decide_eq_false_iff_not, decide_eq_true_eq, Bool.not_not]

theorem find?_unknown_eq_none {types : List (String × Ty)} {fields : Fields} :
    (fields.find? fun f => !(types.map (·.1)).contains f.1) = none ↔ Known types fields := by
  simp only [List.find?_eq_none, Known, List.contains_eq_mem, Bool.not_eq_true', decide_eq_false_iff_not,
    not_not]

theorem membersOf_eq_ok_iff {record : String} {types : List (String × Ty)} {fields : Fields} :
    membersOf path record types d = .ok fields ↔ d = .record fields ∧ Known types fields := by
  constructor
  · intro h
    obtain rfl := eq_record_of_membersOf h
    refine ⟨rfl, find?_unknown_eq_none.mp ?_⟩
    unfold membersOf at h
    dsimp only at h
    split at h
    · cases h
    · assumption
  · rintro ⟨rfl, known⟩
    rw [membersOf, find?_unknown_eq_none.mpr known]

/-- Of a record the first member that no field names is refused. -/
theorem membersOf_eq_refuse {record name : String} {types : List (String × Ty)} {before after : Fields}
    {d : Datum} (known : Known types before) (other : name ∉ types.map Prod.fst) :
    membersOf path record types (.record (before ++ (name, d) :: after)) =
      .error (.unsuitable (Step.after path (.member name)) (.unknownField record)) := by
  rw [membersOf, find?_unknown_eq_some.mpr ⟨other, before, after, rfl, known⟩]
  rfl

theorem misfit_of_membersOf {record : String} {types : List (String × Ty)}
    (h : membersOf path record types d = .error (.unsuitable field why)) :
    ∃ steps, FirstMisfit path (.struct record types) d steps why ∧ field = steps.foldl Step.after path := by
  unfold membersOf at h
  split at h
  next fields =>
    split at h
    next m found =>
      obtain ⟨other, before, after, rfl, known⟩ := find?_unknown_eq_some.mp found
      obtain ⟨rfl, rfl⟩ := refuse_eq_error.mp h
      exact ⟨_, .unknown known other, rfl⟩
    next => cases h
  next other =>
    obtain ⟨rfl, rfl⟩ := refuse_eq_error.mp h
    exact ⟨[], .here (.struct other), rfl⟩

/-! ## Refusals -/

/-- What a type has against a datum on the outside it is refused for. -/
theorem ofJson_of_rejects {t : Ty} (path : String) (h : Rejects t d why) :
    ofJson path t d = .error (.unsuitable path why) := by
  cases t with
  | primitive p => exact bind_eq_error.mpr (.inl (readScalar_of_rejects path h))
  | publicKey =>
    cases h with
    | @key d fault given bad quoted =>
      unfold ofJson
      split
      · exact absurd rfl given
      · rw [bad]
        cases fault with
        | unquotable => exact absurd rfl quoted
        | _ => rfl
  | reference contract =>
    cases h with
    | reference other =>
      unfold ofJson
      split
      next id hid => exact absurd hid (other id)
      next => rfl
  | array element =>
    cases h with
    | array other =>
      unfold ofJson
      split
      next items => exact absurd rfl (other items)
      next => rfl
  | struct name types =>
    cases h with
    | struct other =>
      unfold ofJson membersOf
      split
      next fields => exact absurd rfl (other fields)
      next => rfl

/-- A first misfit is refused. -/
theorem ofJson_of_misfit {t : Ty} {steps : List Step} (h : FirstMisfit path t d steps why) :
    ofJson path t d = .error (.unsuitable (steps.foldl Step.after path) why) := by
  induction h with
  | here rejects => exact ofJson_of_rejects _ rejects
  | unknown known other => exact bind_eq_error.mpr (.inl (membersOf_eq_refuse known other))
  | missing known read absent =>
    refine bind_eq_error.mpr (.inr ⟨_, membersOf_eq_ok_iff.mpr ⟨rfl, known⟩, bind_pure_eq_error.mpr ?_⟩)
    exact ofJsonFields_eq_error_iff.mpr ⟨_, _, _, _, rfl, read, .inl ⟨absent, rfl⟩⟩
  | member known read given _ ih =>
    refine bind_eq_error.mpr (.inr ⟨_, membersOf_eq_ok_iff.mpr ⟨rfl, known⟩, bind_pure_eq_error.mpr ?_⟩)
    exact ofJsonFields_eq_error_iff.mpr ⟨_, _, _, _, rfl, read, .inr ⟨_, given, ih⟩⟩
  | item read _ ih =>
    rw [ofJson]
    refine bind_pure_eq_error.mpr (readItems_eq_error_iff.mpr ⟨_, _, _, rfl, fun k d' hk => ?_, ?_⟩)
    · rw [Nat.zero_add]
      exact read k d' hk
    · rw [Nat.zero_add]
      exact ih

mutual
/-- What is refused has a first misfit. -/
theorem misfit_of_ofJson : ∀ (t : Ty) {path field : String} {d : Datum} {why : Unsuitable},
    ofJson path t d = .error (.unsuitable field why) →
      ∃ steps, FirstMisfit path t d steps why ∧ field = steps.foldl Step.after path
  | .primitive p, path, field, d, why, h => by
    obtain ⟨rfl, rejects⟩ := rejects_of_readScalar (bind_pure_eq_error.mp h)
    exact ⟨[], .here rejects, rfl⟩
  | .publicKey, path, field, d, why, h => by
    unfold ofJson at h
    split at h
    · cases h
    next given =>
      split at h
      next => cases h
      next => cases h
      next bad quoted =>
        obtain ⟨rfl, rfl⟩ := refuse_eq_error.mp h
        exact ⟨[], .here (.key given quoted bad), rfl⟩
  | .reference contract, path, field, d, why, h => by
    unfold ofJson at h
    split at h
    · cases h
    next other =>
      obtain ⟨rfl, rfl⟩ := refuse_eq_error.mp h
      exact ⟨[], .here (.reference other), rfl⟩
  | .array element, path, field, d, why, h => by
    unfold ofJson at h
    split at h
    next items =>
      obtain ⟨before, d, after, rfl, read, bad⟩ := readItems_eq_error_iff.mp (bind_pure_eq_error.mp h)
      simp only [Nat.zero_add] at read bad
      obtain ⟨steps, inside, rfl⟩ := misfit_of_ofJson element bad
      exact ⟨.item before.length :: steps, .item read inside, rfl⟩
    next other =>
      obtain ⟨rfl, rfl⟩ := refuse_eq_error.mp h
      exact ⟨[], .here (.array other), rfl⟩
  | .struct record types, path, field, d, why, h => by
    rcases bind_eq_error.mp h with unread | ⟨fields, taken, bad⟩
    · exact misfit_of_membersOf unread
    · obtain ⟨rfl, known⟩ := membersOf_eq_ok_iff.mp taken
      obtain ⟨before, name, t, after, rfl, read, fails⟩ :=
        ofJsonFields_eq_error_iff.mp (bind_pure_eq_error.mp bad)
      rcases fails with ⟨absent, same⟩ | ⟨d, given, bad⟩
      · cases same
        exact ⟨[.member name], .missing known read absent, rfl⟩
      · have here : (name, t) ∈ before ++ (name, t) :: after := List.mem_append_right _ List.mem_cons_self
        obtain ⟨steps, inside, rfl⟩ := misfit_of_mem _ (name, t) here bad
        exact ⟨.member name :: steps, .member known read given inside, rfl⟩

theorem misfit_of_mem : ∀ (types : List (String × Ty)), ∀ f ∈ types,
    ∀ {path field : String} {d : Datum} {why : Unsuitable},
      ofJson path f.2 d = .error (.unsuitable field why) →
        ∃ steps, FirstMisfit path f.2 d steps why ∧ field = steps.foldl Step.after path
  | [], f, hf => nomatch hf
  | (name, t) :: rest, f, hf => by
    rcases List.mem_cons.mp hf with rfl | hf
    · exact misfit_of_ofJson t
    · exact misfit_of_mem rest f hf
end

/-- Data are refused just at their first misfit, and the path that is named is the one that the reading
started with, followed by the steps that lead to it. -/
theorem refuses_first_misfit (t : Ty) (d : Datum) (path field : String) (why : Unsuitable) :
    ofJson path t d = .error (.unsuitable field why) ↔
      ∃ steps, FirstMisfit path t d steps why ∧ field = steps.foldl Step.after path := by
  refine ⟨misfit_of_ofJson t, ?_⟩
  rintro ⟨steps, misfit, rfl⟩
  exact ofJson_of_misfit misfit

end Covenant.Value
