import Covenant.Proofs.Run.Minimal
import Covenant.Proofs.Run.Records
import Covenant.Proofs.Value.Misuse
/-!
How reading a call can end: in inputs, in a refusal that names what does not fit, or astray.

* `Call.IsShaped`: data of a call as callers give them, a list of arguments, salts that are none or a
  list, and an object of lists of records;
* `Call.Astray`: the ways in which reading such data is misused, each with the data that cause it;
* `calls_are_read_or_refused`: there are no others.
-/

namespace Covenant

open Json (itemPath)
open Value (Overflows)

/-- Data of a call in the form that callers give them; what the lists hold may be anything. -/
structure Call.IsShaped (call : Call) : Prop where
  salts : call.salts = .null ∨ ∃ items, call.salts = .list items
  arguments : ∃ items, call.arguments = .list items
  others : call.others = .null ∨
    ∃ lists, call.others = .record lists ∧ ∀ m ∈ lists, ∃ items, m.2 = .list items

/-- What a call supplies as one of the records of a type that the function looks up. -/
def Call.Supplies (abi : Abi) (call : Call) (type : RecordType) (d : Datum) : Prop :=
  type ∈ abi.otherTypes ∧ ∃ lists items, call.others = .record lists ∧
    lists.lookup type.name = some (.list items) ∧ d ∈ items

/-- A record that is supplied alone or in a pair with its salts. -/
inductive Datum.HasRecord : Datum → Datum → Datum → Prop
  | alone (record : Datum) : HasRecord record record .null
  | pair (record salts : Datum) : HasRecord (.list [record, salts]) record salts

/-- Data that are given for salts and are neither null nor anything that has parts. -/
def Datum.IsLoose (salts : Datum) : Prop := salts ≠ .null ∧ salts.parts = .error .kind

/-- The ways in which reading a call goes astray. -/
inductive Call.Astray (abi : Abi) (call : Call) : Misuse → Prop
  /-- a kind of key that no message can quote for the caller's key -/
  | callerKey (unquotable : Key.Unquotable call.callerKey) : Astray abi call .domain
  /-- a number or a kind of key too large in the receiver -/
  | receiver {type : RecordType} {why : Misuse} (this : abi.thisType = some type)
      (large : Overflows type.toTy call.receiver why) : Astray abi call why
  /-- a number or a kind of key too large in an argument -/
  | argument {data : List Datum} {type : Ty} {d : Datum} {why : Misuse}
      (given : call.arguments = .list data) (here : (type, d) ∈ abi.parameterTypes.zip data)
      (large : Overflows type d why) : Astray abi call why
  /-- a number or a kind of key too large in a supplied record -/
  | record {type : RecordType} {d record salts : Datum} {why : Misuse}
      (supplied : call.Supplies abi type d) (parts : d.HasRecord record salts)
      (large : Overflows type.toTy record why) : Astray abi call why
  /-- a pair that is none of a record and its salts -/
  | salts {type : RecordType} {d record salts : Datum} (supplied : call.Supplies abi type d)
      (parts : d.HasRecord record salts) (loose : salts.IsLoose) : Astray abi call .kind
  /-- an id with parts -/
  | id {type : RecordType} {t : Ty} (known : type ∈ abi.otherTypes)
      (held : type.field? "id" = some t) (parts : t.isAtom = false) : Astray abi call .property

/-- A misuse that data in the form of a call have such a cause for. -/
def Call.Excuses (abi : Abi) (call : Call) (why : Misuse) : Prop := call.IsShaped → call.Astray abi why

namespace Inputs

variable {abi : Abi} {call : Call} {P : Misuse → Prop} {E : String → Prop}

/-! ## Salts and records -/

theorem faultsAmong_misusing {α : Type} {x : Except Misuse α} (h : ∀ why, x = .error why → P why) :
    FaultsAmong P E (misusing x) := by
  cases x with
  | ok a => exact .ok a
  | error why => exact .error (h why rfl)

theorem misusing_bind {α β : Type} (x : Except Misuse α) (f : α → Except Misuse β) :
    misusing (x >>= f) = misusing x >>= fun a => misusing (f a) := by
  cases x <;> rfl

theorem faultsAmong_readKey : FaultsAmong (call.Excuses abi) E (readKey call.callerKey) := by
  unfold readKey
  split
  · exact .ok _
  next read => exact .error fun _ => .callerKey (Key.unquotable_of_readAny read)
  · exact .error trivial

theorem faultsAmong_readSaltsFrom (path : String) (i : Nat) (data : List Datum) :
    FaultsAmong P E (readSaltsFrom path i data) := by
  induction data generalizing i with
  | nil => exact .ok []
  | cons d rest ih =>
    unfold readSaltsFrom
    split
    · split
      · exact .bind (ih (i + 1)) fun ns _ => .pure _
      · exact .refuse trivial
    · exact .refuse trivial

theorem parts_eq_error {d : Datum} {why : Misuse} (h : d.parts = .error why) : why = .kind := by
  cases d <;> cases h <;> rfl

theorem faultsAmong_readSalts (type : RecordType) (path : String) (d : Datum) :
    FaultsAmong (fun why => why = .kind ∧ d.IsLoose) E (readSalts type path d) := by
  unfold readSalts
  split
  · exact .ok _
  next set =>
    refine .bind (faultsAmong_misusing fun why h => ?_) fun salts _ => ?_
    · obtain rfl := parts_eq_error h
      exact ⟨rfl, set, h⟩
    · split
      · exact .refuse trivial
      · exact faultsAmong_readSaltsFrom _ _ _

theorem faultsAmong_readRecord (type : RecordType) (path : String) (d : Datum) :
    FaultsAmong (Overflows type.toTy d) E (readRecord type path d) := by
  refine .bind (Value.faultsAmong_membersOf _ _ _ _) fun fields hf => ?_
  obtain rfl := Value.eq_record_of_membersOf hf
  refine (Value.faultsAmong_ofJsonFields type.fields path fields).mono ?_
  rintro why ⟨f, hf, d, given, large⟩
  exact .member hf given large

theorem faultsAmong_readReceiver {type : RecordType} (this : abi.thisType = some type) :
    FaultsAmong (call.Excuses abi) E (readReceiver abi type call.receiver) := by
  unfold readReceiver
  dsimp only
  split
  · exact .pure _
  · refine .bind ((faultsAmong_readRecord type "this" call.receiver).mono ?_) fun fields _ => .pure _
    exact fun why large _ => .receiver this large

theorem faultsAmong_readArgument (a : String × Ty × Datum) :
    FaultsAmong (Overflows a.2.1 a.2.2) E (readArgument a) := by
  rw [readArgument]
  split
  · exact .ok _
  next fault made =>
    have among := Value.faultsAmong_ofJson (E := fun _ => False) _ _ _ fault made
    cases fault with
    | misuse why => exact .error among
    | key => exact .error trivial
    | unsuitable path why =>
      cases why with
      | emptyReference => cases among
      | _ => exact .error trivial

theorem faultsAmong_readArguments : FaultsAmong (call.Excuses abi) E (readArguments abi call.arguments) := by
  rw [readArguments]
  refine .bind (faultsAmong_misusing fun why h shaped => ?_) fun data hd => ?_
  · obtain ⟨items, given⟩ := shaped.arguments
    rw [given] at h
    cases h
  · split
    · exact .refuse trivial
    · refine .mapM fun a ha => (faultsAmong_readArgument a).mono fun why large shaped => ?_
      obtain ⟨items, given⟩ := shaped.arguments
      rw [given] at hd
      cases hd
      exact .argument given (List.of_mem_zip ha).2 large

theorem faultsAmong_readRecords (type : RecordType) (path : String) (i : Nat) {data : List Datum}
    (supplied : call.IsShaped → ∀ d ∈ data, call.Supplies abi type d) :
    FaultsAmong (call.Excuses abi) E (readRecords type path i data) := by
  induction data generalizing i with
  | nil => exact .ok []
  | cons d rest ih =>
    have own : call.IsShaped → call.Supplies abi type d := fun shaped =>
      supplied shaped d List.mem_cons_self
    have others := ih (i + 1) fun shaped d hd => supplied shaped d (List.mem_cons_of_mem _ hd)
    have each : ∀ record salts, d.HasRecord record salts → FaultsAmong (call.Excuses abi) E (do
        let value ← readRecord type (itemPath path i) record
        let salts ← readSalts type (itemPath path i ++ ".salts") salts
        return SuppliedRecord.mk value salts :: (← readRecords type path (i + 1) rest)) := by
      intro record salts parts
      refine .bind ((faultsAmong_readRecord _ _ _).mono ?_) fun value _ =>
        .bind ((faultsAmong_readSalts _ _ _).mono ?_) fun salts _ => .bind others fun rs _ => .pure _
      · exact fun why large shaped => .record (own shaped) parts large
      · rintro why ⟨rfl, loose⟩ shaped
        exact .salts (own shaped) parts loose
    unfold readRecords
    dsimp only
    split
    · exact each _ _ (.pair _ _)
    · exact each _ _ (.alone _)

/-! ## Records of all types -/

/-- What is gone through for records: what is supplied, or nothing. -/
def supplied (call : Call) : Datum := if call.others.isTrue then call.others else .record []

theorem exists_lists (shaped : call.IsShaped) : ∃ lists, supplied call = .record lists ∧
    ∀ m ∈ lists, call.others = .record lists ∧ ∃ items, m.2 = .list items := by
  rcases shaped.others with none | ⟨lists, given, lined⟩
  · exact ⟨[], by rw [supplied, none]; rfl, List.forall_mem_nil _⟩
  · refine ⟨lists, ?_, fun m hm => ⟨given, lined m hm⟩⟩
    rw [supplied, given]
    cases lists <;> rfl

theorem faultsAmong_readOther {type : RecordType} (known : type ∈ abi.otherTypes) :
    FaultsAmong (call.Excuses abi) E (readOther (supplied call) type) := by
  unfold readOther
  dsimp only
  refine .bind (faultsAmong_misusing fun why h shaped => ?_) fun present hp => ?_
  · obtain ⟨lists, same, -⟩ := exists_lists shaped
    rw [same] at h
    cases h
  cases present with
  | false => exact .refuse trivial
  | true =>
    rw [if_neg (by decide)]
    split
    · exact .refuse trivial
    -- what is supplied are the lists of the call, and one of them has the name of the type
    have listed : call.IsShaped → ∃ lists items, call.others = .record lists ∧
        supplied call = .record lists ∧ lists.lookup type.name = some (.list items) := by
      intro shaped
      obtain ⟨lists, same, lined⟩ := exists_lists shaped
      rw [same] at hp
      have here : (lists.any fun f => f.1 == type.name) = true :=
        Except.ok.inj (misusing_eq_ok.mp hp)
      obtain ⟨m, hm, named⟩ := List.any_eq_true.mp here
      obtain ⟨d, found⟩ := exists_lookup_iff.mpr (List.mem_map.mpr ⟨m, hm, beq_iff_eq.mp named⟩)
      obtain ⟨given, items, rfl⟩ := lined _ (mem_of_lookup found)
      exact ⟨lists, items, given, same, found⟩
    refine .bind (faultsAmong_misusing fun why h shaped => ?_) fun items hi =>
      .bind (faultsAmong_misusing fun why h shaped => ?_) fun parts hparts =>
        .bind (faultsAmong_readRecords type _ 0 fun shaped d hd => ?_) fun records _ => .pure _
    all_goals obtain ⟨lists, data, given, same, found⟩ := listed shaped
    · rw [same, Datum.member, found] at h
      cases h
    all_goals
      rw [same, Datum.member, found] at hi
      cases hi
    · cases h
    · cases hparts
      exact ⟨known, lists, _, given, found, hd⟩

theorem faultsAmong_readOthers : FaultsAmong (call.Excuses abi) E (readOthers abi call.others) := by
  unfold readOthers
  dsimp only
  refine .bind (faultsAmong_misusing fun why h shaped => ?_) fun parts _ => ?_
  · obtain ⟨lists, same, -⟩ := exists_lists shaped
    rw [supplied] at same
    rw [same] at h
    cases h
  split
  · exact .refuse trivial
  · exact .bind (.mapM fun type known => faultsAmong_readOther known) fun others _ => .pure _

/-! ## References -/

/-- A record has an id that it is looked up by, unless its id has parts. -/
theorem faultsAmong_recordId {type : RecordType} (known : type ∈ abi.otherTypes) {t : Ty}
    (held : type.field? "id" = some t) {record : List (String × Value)}
    (typed : Value.FieldsOf type.fields record) :
    FaultsAmong (call.Excuses abi) E (misusing (recordId record)) := by
  obtain ⟨v, found, isOf⟩ := typed.lookup held
  rw [recordId, found]
  cases isOf with
  | scalar | publicKey | reference => exact .ok _
  | array | struct => exact .error fun _ => .id known held rfl

theorem faultsAmong_hasId {records : List SuppliedRecord}
    (named : ∀ r ∈ records, FaultsAmong P E (misusing (recordId r.value))) (id : Bytes) :
    FaultsAmong P E (misusing (hasId id records)) := by
  induction records with
  | nil => exact .ok false
  | cons r rest ih =>
    rw [List.forall_mem_cons] at named
    rw [hasId, misusing_bind]
    refine .bind named.1 fun other _ => ?_
    split
    · exact .ok true
    · exact ih named.2

/-- The check of a field that the receiver has asks for ids of supplied records, and refuses an empty
reference where one is required. -/
theorem faultsAmong_checkReference {others : List (String × List SuppliedRecord)}
    (read : readOthers abi call.others = .ok others) {fields : List (String × Value)} {field : String × Ty}
    (held : ∃ v, fields.lookup field.1 = some v)
    (required : abi.requiredReferences.contains field.1 = true → E ("this." ++ field.1)) :
    FaultsAmong (call.Excuses abi) E (checkReference abi fields others field) := by
  obtain ⟨v, found⟩ := held
  unfold checkReference
  split
  next contract _ =>
    split
    · exact .ok ()
    next records supplied =>
      have named : ∀ r ∈ records, FaultsAmong (call.Excuses abi) E (misusing (recordId r.value)) := by
        intro r hr
        obtain ⟨type, known, -, typed⟩ := exists_type_of_readOthers read (mem_of_lookup supplied)
        obtain ⟨t, id⟩ := exists_id_of_readOthers read known
        exact faultsAmong_recordId known id (typed r hr)
      rw [found]
      split
      next none => cases none
      next id _ =>
        split
        · split
          next here => exact .refuse (required here)
          · exact .ok ()
        · refine .bind (faultsAmong_hasId named id) fun there _ => ?_
          split
          · exact .refuse trivial
          · exact .ok ()
      · exact .ok ()
  · exact .ok ()

/-- How reading a call for a compiled function can fail. -/
theorem faultsAmong_ofCall {program : Program} {contract function : String} {c : Compiled}
    (hc : program.compile contract function = .ok c) (call : Call) :
    FaultsAmong (call.Excuses c.abi) (fun path => ∃ name ∈ c.abi.requiredReferences, path = "this." ++ name)
      (ofCall c.abi call) := by
  obtain ⟨schema, record, -, describes, -⟩ := Program.describes_of_compile hc
  rw [Inputs.ofCall, describes.this]
  dsimp only
  refine .bind faultsAmong_readKey fun key _ =>
    .bind ((faultsAmong_readSalts _ _ _).mono ?_) fun salts _ => ?_
  · rintro why ⟨-, set, loose⟩ shaped
    rcases shaped.salts with none | ⟨items, given⟩
    · exact absurd none set
    · rw [given] at loose
      cases loose
  refine .bind (.optionMapM fun type this => ?_) fun receiver hr =>
    .bind faultsAmong_readArguments fun arguments _ => .bind faultsAmong_readOthers fun others ho => ?_
  · cases this
    exact faultsAmong_readReceiver describes.this
  split
  next fields =>
    refine .bind (.forM fun field hf => faultsAmong_checkReference ho ?_ ?_) fun _ _ => .pure _
    · rcases optionMapM_eq_ok.mp hr with ⟨none, -⟩ | ⟨type, fields', this, same, read⟩
      · cases none
      · cases this
        cases same
        have own := exists_lookup_iff.mp ⟨_, describes.own hf⟩
        exact exists_lookup_iff.mpr ((names_of_readReceiver read).symm ▸ own)
    · exact fun here => ⟨field.1, List.contains_iff_mem.mp here, rfl⟩
  · exact .pure _

end Inputs

/-! ## Calls -/

open Inputs in
/-- Data of a call for a compiled function, whatever they are within a call's form, are read as inputs or
refused, with the path of a datum that does not fit or as no key. Nothing else comes of them, unless a
number too large stands where one is read or in what names a kind of key, a supplied pair is none of a
record and its salts, or ids of a record type that is looked up have parts. All text in the data is made of
characters that can be encoded, and the stack is taken to suffice for the nesting of the types. -/
theorem calls_are_read_or_refused {program : Program} {contract function : String} {c : Compiled}
    (hc : program.compile contract function = .ok c) {call : Call} (shaped : call.IsShaped) :
    (∃ inputs, Inputs.ofCall c.abi call = .ok inputs) ∨
    (∃ path why, Inputs.ofCall c.abi call = .error (.unsuitable path why)) ∨
    (∃ fault, Inputs.ofCall c.abi call = .error (.key fault)) ∨
    ∃ why, Inputs.ofCall c.abi call = .error (.misuse why) ∧ call.Astray c.abi why := by
  cases made : Inputs.ofCall c.abi call with
  | ok inputs => exact .inl ⟨inputs, rfl⟩
  | error fault =>
    cases fault with
    | unsuitable path why => exact .inr (.inl ⟨path, why, rfl⟩)
    | key fault => exact .inr (.inr (.inl ⟨fault, rfl⟩))
    | misuse why => exact .inr (.inr (.inr ⟨why, rfl, faultsAmong_ofCall hc call _ made shaped⟩))

/-- A function that follows a reference. -/
def quoteSource : String :=
  "contract Bank \x7b id: string; rate: f64; \x7d " ++
  "contract Account \x7b bank: Bank; @call quote(k: u32): f64 \x7b return this.bank.rate; \x7d \x7d"

/-- A call with a pair of a record and its salts, the rate in which is no number. -/
def quoteCall : Call :=
  { Call.empty with
    receiver := .record [("bank", .text "b")]
    arguments := .list [.text "7"]
    others := .record [("Bank", .list [.list [.record [("id", .text "b"), ("rate", .text "high")], .null]])] }

/-- How reading a call has ended: where it was refused, or what was misused. -/
def refusal? : Except CallFault Inputs → Option (String ⊕ Misuse)
  | .error (.unsuitable path _) => some (.inl path)
  | .error (.misuse why) => some (.inr why)
  | _ => none

theorem quote_call_is_refused : ∃ program c, Program.read quoteSource = .ok program ∧
    program.compile "Account" "quote" = .ok c ∧ quoteCall.IsShaped ∧
    ∃ why, Inputs.ofCall c.abi quoteCall = .error (.unsuitable "other_records.Bank[0].rate" why) := by
  have refused : (do
      let program ← (Program.read quoteSource).toOption
      let c ← (program.compile "Account" "quote").toOption
      refusal? (Inputs.ofCall c.abi quoteCall)) = some (.inl "other_records.Bank[0].rate") := by
    decide +kernel
  simp only [Option.bind_eq_bind, Option.bind_eq_some_iff, toOption_eq_some] at refused
  obtain ⟨program, hp, c, hc, ended⟩ := refused
  have shaped : quoteCall.IsShaped := ⟨.inl rfl, ⟨_, rfl⟩, .inr ⟨_, rfl, by simp⟩⟩
  refine ⟨program, c, hp, hc, shaped, ?_⟩
  rcases calls_are_read_or_refused hc shaped with ⟨inputs, read⟩ | ⟨path, why, read⟩ | ⟨fault, read⟩ |
    ⟨why, read, -⟩
  · rw [read] at ended
    cases ended
  · rw [read] at ended
    cases ended
    exact ⟨why, read⟩
  · rw [read] at ended
    cases ended
  · rw [read] at ended
    cases ended

theorem exists_astray {source record function : String} {call : Call} {why : Misuse}
    (h : (do
      let program ← (Program.read source).toOption
      let c ← (program.compile record function).toOption
      refusal? (Inputs.ofCall c.abi call)) = some (.inr why)) : ∃ program c,
    Program.read source = .ok program ∧ program.compile record function = .ok c ∧
    Inputs.ofCall c.abi call = .error (.misuse why) := by
  simp only [Option.bind_eq_bind, Option.bind_eq_some_iff, toOption_eq_some] at h
  obtain ⟨program, hp, c, hc, ended⟩ := h
  refine ⟨program, c, hp, hc, ?_⟩
  unfold refusal? at ended
  split at ended <;> cases ended
  assumption

/-- A call with an integer beyond the doubles as rate, and one with a number as the salts of a record. -/
def largeCall : Call :=
  { quoteCall with
    others := .record [("Bank", .list [.record [("id", .text "b"), ("rate", .integer (16 ^ 256))]])] }

def saltedCall : Call :=
  { quoteCall with
    others := .record [("Bank",
      .list [.list [.record [("id", .text "b"), ("rate", .integer 1)], .integer 5]])] }

/-- A function that follows a reference to records whose ids are lists. -/
def listedSource : String :=
  "contract Bank \x7b id: string[]; rate: f64; \x7d " ++
  "contract Account \x7b bank: Bank; @call quote(k: u32): f64 \x7b return this.bank.rate; \x7d \x7d"

def listedCall : Call :=
  { quoteCall with
    others := .record [("Bank", .list [.record [("id", .list []), ("rate", .integer 1)]])] }

/-- Not all data of a call are read or refused: each of these calls is misused. -/
theorem calls_go_astray : (largeCall.IsShaped ∧ saltedCall.IsShaped ∧ listedCall.IsShaped) ∧
    (∃ program c, Program.read quoteSource = .ok program ∧
      program.compile "Account" "quote" = .ok c ∧
      Inputs.ofCall c.abi largeCall = .error (.misuse .magnitude)) ∧
    (∃ program c, Program.read quoteSource = .ok program ∧
      program.compile "Account" "quote" = .ok c ∧
      Inputs.ofCall c.abi saltedCall = .error (.misuse .kind)) ∧
    ∃ program c, Program.read listedSource = .ok program ∧
      program.compile "Account" "quote" = .ok c ∧
      Inputs.ofCall c.abi listedCall = .error (.misuse .property) := by
  refine ⟨⟨?_, ?_, ?_⟩, exists_astray ?_, exists_astray ?_, exists_astray ?_⟩
  iterate 3 exact ⟨.inl rfl, ⟨_, rfl⟩, .inr ⟨_, rfl, by simp⟩⟩
  iterate 3 decide +kernel

end Covenant
