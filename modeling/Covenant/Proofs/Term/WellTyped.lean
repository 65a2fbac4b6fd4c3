import Covenant.Proofs.Lists
import Covenant.Proofs.Syntax.Names
import Covenant.Proofs.Term.Elaboration
/-!
Well-typed terms and actions, and that type checking gives no others.

* `HasType`, `Action.WellTyped`: the rules, in a layout of slots and fields;
* `Elaborates.hasType`: the term of an expression has its type;
* `Stmt.advances`: the action of a statement is well typed in the layout after it.

Names of members are kept apart from the empty text, which written code does not allow.
-/

namespace Covenant

namespace Ty

/-- A type whose structs name all their fields. -/
inductive Named : Ty → Prop
  | primitive (p : Primitive) : Named (.primitive p)
  | publicKey : Named .publicKey
  | reference (contract : String) : Named (.reference contract)
  | array {element : Ty} (h : Named element) : Named (.array element)
  | struct {name : String} {fields : List (String × Ty)} (names : ∀ f ∈ fields, f.1 ≠ "")
      (parts : ∀ f ∈ fields, Named f.2) : Named (.struct name fields)

end Ty

/-- A record whose fields have names and whose types name theirs. -/
def RecordType.Named (r : RecordType) : Prop := ∀ f ∈ r.fields, f.1 ≠ "" ∧ f.2.Named

theorem RecordType.Named.field {r : RecordType} (h : r.Named) {name : String} {type : Ty}
    (hf : r.field? name = some type) : name ≠ "" ∧ type.Named :=
  h (name, type) (mem_of_lookup hf)

/-- What the terms of a function refer to: records, fields of the receiver, slots. -/
structure Layout where
  schema : Schema
  this : RecordType
  slots : List Ty

namespace Layout

structure Named (l : Layout) : Prop where
  this : l.this.Named
  schema : ∀ r ∈ l.schema, r.name ≠ "" ∧ r.type.Named
  slots : ∀ t ∈ l.slots, t.Named

structure Extends (l l' : Layout) : Prop where
  schema : l'.schema = l.schema
  this : l'.this = l.this
  slots : l.slots <+: l'.slots

theorem Extends.refl (l : Layout) : l.Extends l := ⟨rfl, rfl, List.prefix_refl _⟩

theorem Extends.trans {l l' l'' : Layout} (h : l.Extends l') (h' : l'.Extends l'') :
    l.Extends l'' :=
  ⟨h'.schema.trans h.schema, h'.this.trans h.this, h.slots.trans h'.slots⟩

end Layout

theorem Schema.mem_of_find? {schema : Schema} {name : String} {r : RecordSchema}
    (h : schema.find? name = some r) : r ∈ schema ∧ r.name = name := by
  unfold Schema.find? at h
  exact ⟨List.mem_of_find?_eq_some h, by simpa using List.find?_some h⟩

def Arith.isBinary : Arith → Bool
  | .neg | .other _ => false
  | _ => true

theorem BinaryOp.isBinary_of_arith? {op : BinaryOp} {o : Arith} (h : op.arith? = some o) :
    o.isBinary = true := by
  cases op <;> cases h <;> rfl

inductive HasType (l : Layout) : Term → Ty → Prop
  | literal {p : Primitive} {d : Datum} (h : IsLiteral p d) : HasType l (.literal p d) (.primitive p)
  | slot {index : Nat} {type : Ty} (h : l.slots[index]? = some type) : HasType l (.slot index) type
  | field {name : String} {type : Ty} (h : l.this.field? name = some type) :
      HasType l (.field name) type
  | caller : HasType l .caller .publicKey
  | member {r : Term} {name word : String} {fields : List (String × Ty)} {type : Ty}
      (whole : HasType l r (.struct name fields)) (found : fields.lookup word = some type)
      (named : word ≠ "") : HasType l (.member r word) type
  | referenced {r : Term} {contract word : String} {record : RecordSchema} {type : Ty}
      (whole : HasType l r (.reference contract)) (known : l.schema.find? contract = some record)
      (found : record.type.field? word = some type) :
      HasType l (.member (.referenced contract r) word) type
  | element {a p : Term} {element type : Ty} (whole : HasType l a (.array element))
      (place : HasType l p type) (integer : type.isInteger = true) :
      HasType l (.element a p) element
  | array {items : List Term} {element : Ty} (each : ∀ t ∈ items, HasType l t element) :
      HasType l (.array items) (.array element)
  | arraySize {a : Term} {element : Ty} (whole : HasType l a (.array element)) :
      HasType l (.arraySize a) .u32
  | textSize {a : Term} (whole : HasType l a .string) : HasType l (.textSize a) .u32
  | indexOf {a b : Term} {element : Ty} (whole : HasType l a (.array element))
      (item : HasType l b element) : HasType l (.indexOf a b) .i32
  | includes {a b : Term} {element : Ty} (whole : HasType l a (.array element))
      (item : HasType l b element) : HasType l (.includes a b) .boolean
  | appended {a b : Term} {element : Ty} (whole : HasType l a (.array element))
      (item : HasType l b element) : HasType l (.appended a b) (.array element)
  | not {c : Term} (condition : HasType l c .boolean) : HasType l (.not c) .boolean
  | truth {a : Term} {type : Ty} (value : HasType l a type) (h : type.HasTruth) :
      HasType l (.truth a) .boolean
  | arith {o : Arith} {p : Primitive} {a b : Term} (binary : o.isBinary = true)
      (numeric : p.isNumeric = true) (left : HasType l a (.primitive p))
      (right : HasType l b (.primitive p)) : HasType l (.arith o p a b) (.primitive p)
  | negate {p : Primitive} {a : Term} (signed : p.isSigned = true)
      (value : HasType l a (.primitive p)) : HasType l (.negate p a) (.primitive p)
  | join {a b : Term} (left : HasType l a .string) (right : HasType l b .string) :
      HasType l (.join a b) .string
  | compare {c : Comparison} {a b : Term} {type : Ty} (suits : c.Suits type)
      (left : HasType l a type) (right : HasType l b type) : HasType l (.compare c a b) .boolean
  | both {a b : Term} (left : HasType l a .boolean) (right : HasType l b .boolean) :
      HasType l (.both a b) .boolean
  | either {a b : Term} (left : HasType l a .boolean) (right : HasType l b .boolean) :
      HasType l (.either a b) .boolean

/-- The rules for the path from a whole of one type to a part of another. -/
inductive Along (l : Layout) : Ty → List PathStep → Ty → Prop
  | nil (type : Ty) : Along l type [] type
  | member {name word : String} {fields : List (String × Ty)} {type last : Ty}
      {rest : List PathStep} (found : fields.lookup word = some type) (named : word ≠ "")
      (along : Along l type rest last) : Along l (.struct name fields) (.member word :: rest) last
  | element {element last type : Ty} {p : Term} {rest : List PathStep} (place : HasType l p type)
      (integer : type.isInteger = true) (along : Along l element rest last) :
      Along l (.array element) (.element p :: rest) last

inductive Action.WellTyped (l : Layout) (result : Option Ty) : Action → Prop
  | sequence {actions : List Action} (each : ∀ a ∈ actions, WellTyped l result a) :
      WellTyped l result (.sequence actions)
  | assign {root : Root} {path : List PathStep} {value : Term} {whole type : Ty}
      (first : HasType l root.read whole) (along : Along l whole path type)
      (stored : HasType l value type) : WellTyped l result (.assign root path value)
  | ifThen {condition : Term} {yes : Action} (test : HasType l condition .boolean)
      (first : WellTyped l result yes) : WellTyped l result (.ifThen condition yes)
  | ifElse {condition : Term} {yes no : Action} (test : HasType l condition .boolean)
      (first : WellTyped l result yes) (second : WellTyped l result no) :
      WellTyped l result (.ifElse condition yes no)
  | loop {condition : Term} {body : Action} (test : HasType l condition .boolean)
      (first : WellTyped l result body) : WellTyped l result (.loop condition body)
  | leave (h : result = none) : WellTyped l result (.leave none)
  | leaveWith {value : Term} {type : Ty} (h : result = some type) (returned : HasType l value type) :
      WellTyped l result (.leave (some value))
  | abort {message : Term} (text : HasType l message .string) :
      WellTyped l result (.abort message)
  | evaluate {value : Term} {type : Ty} (evaluated : HasType l value type) :
      WellTyped l result (.evaluate value)

/-! ## More slots -/

theorem HasType.extend {l l' : Layout} (ext : l.Extends l') {t : Term} {type : Ty}
    (h : HasType l t type) : HasType l' t type := by
  induction h with
  | literal h => exact .literal h
  | slot h =>
    obtain ⟨rest, hr⟩ := ext.slots
    refine .slot ?_
    rw [← hr, List.getElem?_append_left (List.getElem?_eq_some_iff.mp h).1]
    exact h
  | field h => exact .field (ext.this ▸ h)
  | caller => exact .caller
  | member _ found named ih => exact .member ih found named
  | referenced _ known found ih => exact .referenced ih (ext.schema ▸ known) found
  | element _ _ integer ih ih' => exact .element ih ih' integer
  | array _ ih => exact .array ih
  | arraySize _ ih => exact .arraySize ih
  | textSize _ ih => exact .textSize ih
  | indexOf _ _ ih ih' => exact .indexOf ih ih'
  | includes _ _ ih ih' => exact .includes ih ih'
  | appended _ _ ih ih' => exact .appended ih ih'
  | not _ ih => exact .not ih
  | truth _ h ih => exact .truth ih h
  | arith binary numeric _ _ ih ih' => exact .arith binary numeric ih ih'
  | negate signed _ ih => exact .negate signed ih
  | join _ _ ih ih' => exact .join ih ih'
  | compare suits _ _ ih ih' => exact .compare suits ih ih'
  | both _ _ ih ih' => exact .both ih ih'
  | either _ _ ih ih' => exact .either ih ih'

theorem Along.extend {l l' : Layout} (ext : l.Extends l') {whole type : Ty} {path : List PathStep}
    (h : Along l whole path type) : Along l' whole path type := by
  induction h with
  | nil type => exact .nil type
  | member found named _ ih => exact .member found named ih
  | element place integer _ ih => exact .element (place.extend ext) integer ih

theorem Along.trans {l : Layout} {a b c : Ty} {path path' : List PathStep} (h : Along l a path b)
    (h' : Along l b path' c) : Along l a (path ++ path') c := by
  induction h with
  | nil type => exact h'
  | member found named _ ih => exact .member found named (ih h')
  | element place integer _ ih => exact .element place integer (ih h')

theorem Action.WellTyped.extend {l l' : Layout} (ext : l.Extends l') {result : Option Ty}
    {a : Action} (h : a.WellTyped l result) : a.WellTyped l' result := by
  induction h with
  | sequence _ ih => exact .sequence ih
  | assign first along stored =>
    exact .assign (first.extend ext) (along.extend ext) (stored.extend ext)
  | ifThen test _ ih => exact .ifThen (test.extend ext) ih
  | ifElse test _ _ ih ih' => exact .ifElse (test.extend ext) ih ih'
  | loop test _ ih => exact .loop (test.extend ext) ih
  | leave h => exact .leave h
  | leaveWith h returned => exact .leaveWith h (returned.extend ext)
  | abort text => exact .abort (text.extend ext)
  | evaluate evaluated => exact .evaluate (evaluated.extend ext)

/-! ## Expressions -/

namespace Scope

def layout (s : Scope) : Layout := ⟨s.schema, s.this, s.slots⟩

/-- A scope whose names are those of slots and whose types are all named. -/
structure Sound (s : Scope) : Prop where
  bound : ∀ block ∈ s.blocks, ∀ p ∈ block, p.2 < s.slots.length
  named : s.layout.Named

theorem Sound.slot {s : Scope} (h : s.Sound) {word : String} {slot : Nat}
    (found : s.lookup? word = some slot) :
    s.slots[slot]? = some (s.slots.getD slot .publicKey) := by
  obtain ⟨block, hb, hl⟩ := List.exists_of_findSome?_eq_some found
  have hs : slot < s.slots.length := h.bound block hb _ (mem_of_lookup hl)
  rw [List.getD_eq_getElem?_getD, List.getElem?_eq_getElem hs, Option.getD_some]

end Scope

theorem IsCondition.hasType {l : Layout} {t c : Term} {type : Ty} (h : IsCondition t type c)
    (ht : HasType l t type) : HasType l c .boolean := by
  cases h with
  | boolean => exact ht
  | truth h => exact .truth ht h

theorem Operates.hasType {l : Layout} {op : BinaryOp} {a b t : Term} {type type' : Ty}
    (h : Operates op a b type t type') (ha : HasType l a type) (hb : HasType l b type) :
    HasType l t type' ∧ type'.Named := by
  cases h with
  | compare _ suits => exact ⟨.compare suits ha hb, .primitive _⟩
  | join => exact ⟨.join ha hb, .primitive _⟩
  | arith stands numeric =>
    exact ⟨.arith (BinaryOp.isBinary_of_arith? stands) numeric ha hb, .primitive _⟩

theorem named_of_literalType {op : BinaryOp} {expected : Option Ty}
    (h : ∀ type, expected = some type → type.Named) {type : Ty}
    (ht : Expr.literalType op expected = some type) : type.Named := by
  unfold Expr.literalType at ht
  split at ht
  · exact h type (Option.filter_eq_some_iff.mp ht).1
  · cases ht

/-- The rules for expressions give a term its type, and no type without names where none is
expected. -/
theorem Elaborates.hasType {s : Scope} (sound : s.Sound) {expected : Option Ty} {e : Expr} {t : Term}
    {type : Ty} (h : Elaborates s expected e t type)
    (named : ∀ type, expected = some type → type.Named) : HasType s.layout t type ∧ type.Named := by
  have no : ∀ type : Ty, (none : Option Ty) = some type → type.Named := fun _ h => by cases h
  have one : ∀ {element : Ty}, element.Named → ∀ type, some element = some type → type.Named :=
    fun h _ he => Option.some.inj he ▸ h
  have truth := one (Ty.Named.primitive .boolean)
  induction h with
  | number h =>
    obtain ⟨he, hl, -⟩ := Expr.literalOf_eq_ok (Expr.literal_eq_literalOf .. ▸ h)
    cases he
    exact ⟨.literal hl, .primitive _⟩
  | string => exact ⟨.literal (.string _), .primitive _⟩
  | boolean => exact ⟨.literal (.boolean _), .primitive _⟩
  | @items element _ _ _ length _ ih =>
    have hn := named _ rfl
    have he : element.Named := by
      cases hn with
      | array h => exact h
    refine ⟨.array fun t ht => ?_, hn⟩
    obtain ⟨e, he'⟩ := exists_beside length ht
    exact (ih e t he' (one he)).1
  | itemsOfFirst _ _ length _ ih ihs =>
    obtain ⟨head, he⟩ := ih no
    refine ⟨.array fun t ht => ?_, .array he⟩
    rcases List.mem_cons.mp ht with rfl | ht
    · exact head
    · obtain ⟨e, he'⟩ := exists_beside length ht
      exact (ihs e t he' (one he)).1
  | name _ found =>
    have hs := sound.slot found
    exact ⟨.slot hs, sound.named.slots _ (List.mem_of_getElem? hs)⟩
  | field found => exact ⟨.field found, (sound.named.this.field found).2⟩
  | caller => exact ⟨.caller, .publicKey⟩
  | arraySize _ _ _ ih => exact ⟨.arraySize (ih no).1, .primitive _⟩
  | textSize _ _ _ ih => exact ⟨.textSize (ih no).1, .primitive _⟩
  | referenced _ _ _ known found ih =>
    have record := (sound.named.schema _ (Schema.mem_of_find? known).1).2
    exact ⟨.referenced (ih no).1 known found, (record.field found).2⟩
  | member _ _ _ found ih =>
    obtain ⟨whole, hn⟩ := ih no
    have hf := mem_of_lookup found
    cases hn with
    | struct names parts => exact ⟨.member whole found (names _ hf), parts _ hf⟩
  | element _ _ integer ih ih' =>
    obtain ⟨whole, hn⟩ := ih no
    cases hn with
    | array he => exact ⟨.element whole (ih' (one (.primitive _))).1 integer, he⟩
  | indexOf _ _ ih ih' =>
    obtain ⟨whole, hn⟩ := ih no
    cases hn with
    | array he => exact ⟨.indexOf whole (ih' (one he)).1, .primitive _⟩
  | includes _ _ ih ih' =>
    obtain ⟨whole, hn⟩ := ih no
    cases hn with
    | array he => exact ⟨.includes whole (ih' (one he)).1, .primitive _⟩
  | not _ condition ih => exact ⟨.not (condition.hasType (ih truth).1), .primitive _⟩
  | negative h =>
    obtain ⟨he, hl, -⟩ := Expr.literalOf_eq_ok (Expr.literal_eq_literalOf .. ▸ h)
    cases he
    exact ⟨.literal hl, .primitive _⟩
  | negate _ _ signed ih => exact ⟨.negate signed (ih named).1, .primitive _⟩
  | both _ condition _ condition' ih ih' =>
    exact ⟨.both (condition.hasType (ih truth).1) (condition'.hasType (ih' truth).1), .primitive _⟩
  | either _ condition _ condition' ih ih' =>
    exact ⟨.either (condition.hasType (ih truth).1) (condition'.hasType (ih' truth).1),
      .primitive _⟩
  | ofLeft _ _ _ _ operates ih ih' =>
    obtain ⟨left, hn⟩ := ih no
    exact operates.hasType left (ih' (one hn)).1
  | ofRight _ _ _ _ _ operates ih ih' =>
    obtain ⟨right, hn⟩ := ih no
    exact operates.hasType (ih' (one hn)).1 right
  | ofLiterals _ _ _ _ _ _ operates ih ih' =>
    obtain ⟨left, hn⟩ := ih fun _ h => named_of_literalType named h
    exact operates.hasType left (ih' (one hn)).1

/-- The term that reads a target is well typed, and so is the path to it. -/
theorem Expr.Targets.hasType {s : Scope} (sound : s.Sound) {e : Expr} {target : Expr.Target}
    (h : e.Targets s target) : HasType s.layout target.read target.type ∧ target.type.Named ∧
      ∃ whole, HasType s.layout target.root.read whole ∧
        Along s.layout whole target.path target.type := by
  induction h with
  | name _ found =>
    have hs := sound.slot found
    exact ⟨.slot hs, sound.named.slots _ (List.mem_of_getElem? hs), _, .slot hs, .nil _⟩
  | field found => exact ⟨.field found, (sound.named.this.field found).2, _, .field found, .nil _⟩
  | member _ _ _ struct found ih =>
    obtain ⟨read, hn, whole, root, along⟩ := ih
    rw [struct] at read hn along
    have hf := mem_of_lookup found
    cases hn with
    | struct names parts =>
      exact ⟨.member read found (names _ hf), parts _ hf, whole, root,
        along.trans (.member found (names _ hf) (.nil _))⟩
  | element _ array index integer ih =>
    obtain ⟨read, hn, whole, root, along⟩ := ih
    rw [array] at read hn along
    obtain ⟨place, -⟩ := index.hasType sound fun _ h => Option.some.inj h ▸ .primitive _
    cases hn with
    | array he =>
      exact ⟨.element read place integer, he, whole, root,
        along.trans (.element place integer (.nil _))⟩

theorem Expr.Acts.wellTyped {s : Scope} (sound : s.Sound) {e : Expr} {a : Action}
    (h : e.Acts s a) : a.WellTyped s.layout s.result := by
  cases h with
  | push whole array value =>
    obtain ⟨read, hn, root, first, along⟩ := whole.hasType sound
    rw [array] at read hn along
    cases hn with
    | array he =>
      exact .assign first along
        (.appended read (value.hasType sound fun _ h => Option.some.inj h ▸ he).1)
  | error value =>
    exact .abort (value.hasType sound fun _ h => Option.some.inj h ▸ .primitive _).1

/-! ## Written types -/

/-- What is so of all names and of all types that are written for fields is so of the fields. -/
theorem TypeExpr.forall_of_resolveFields {P : String → Prop} {Q : Ty → Prop} {records : List String}
    {line : Nat} {fields : List (String × TypeExpr)} {types : List (String × Ty)}
    (names : ∀ f ∈ fields, P f.1)
    (each : ∀ f ∈ fields, ∀ type, f.2.resolve records line = .ok type → Q type)
    (h : resolveFields records line fields = .ok types) : ∀ f ∈ types, P f.1 ∧ Q f.2 := by
  induction fields generalizing types with
  | nil =>
    obtain rfl := pure_eq_ok.mp h
    simp
  | cons field rest ih =>
    obtain ⟨type, ht, h⟩ := bind_eq_ok.mp h
    obtain ⟨types', hts, h⟩ := bind_eq_ok.mp h
    obtain rfl := pure_eq_ok.mp h
    rw [List.forall_mem_cons] at names each ⊢
    exact ⟨⟨names.1, each.1 type ht⟩, ih names.2 each.2 hts⟩

/-- What a word for a type stands for. -/
theorem TypeExpr.resolve_named_cases {records : List String} {line own : Nat} {name : String} {type : Ty}
    (h : (TypeExpr.named name own).resolve records line = .ok type) :
    (∃ p, type = .primitive p) ∨ type = .publicKey ∨ name ∈ records ∧ type = .reference name := by
  rw [resolve] at h
  split at h
  next p hp =>
    cases h
    exact .inl ⟨p, rfl⟩
  next =>
    split at h
    next =>
      cases h
      exact .inr (.inl rfl)
    next =>
      split at h
      next known =>
        cases h
        exact .inr (.inr ⟨List.contains_iff_mem.mp known, rfl⟩)
      next => cases h

theorem TypeExpr.resolve_named {records : List String} {line : Nat} {t : TypeExpr}
    (named : t.Named) {type : Ty} (h : t.resolve records line = .ok type) : type.Named := by
  induction named generalizing type with
  | named name own =>
    obtain ⟨p, rfl⟩ | rfl | ⟨-, rfl⟩ := resolve_named_cases h
    · exact .primitive p
    · exact .publicKey
    · exact .reference name
  | array _ ih =>
    obtain ⟨element, he, h⟩ := bind_eq_ok.mp h
    obtain rfl := pure_eq_ok.mp h
    exact .array (ih he)
  | @object fields names parts ih =>
    rw [resolve] at h
    split at h
    next =>
      obtain ⟨types, ht, h⟩ := bind_eq_ok.mp h
      obtain rfl := pure_eq_ok.mp h
      have each := forall_of_resolveFields (P := (· ≠ "")) (Q := Ty.Named)
        (fun f hf => (names f hf).ne_empty) (fun f hf _ => ih f hf) ht
      exact .struct (fun f hf => (each f hf).1) fun f hf => (each f hf).2
    next => cases h

/-! ## Statements -/

/-- A scope that statements have made of another one: it has more slots. -/
structure Scope.Follows (s s' : Scope) : Prop where
  sound : s'.Sound
  result : s'.result = s.result
  extends' : s.layout.Extends s'.layout

theorem Scope.Follows.refl {s : Scope} (h : s.Sound) : s.Follows s := ⟨h, rfl, .refl _⟩

theorem Scope.Follows.trans {s s' s'' : Scope} (h : s.Follows s') (h' : s'.Follows s'') :
    s.Follows s'' :=
  ⟨h'.sound, h'.result.trans h.result, h.extends'.trans h'.extends'⟩

namespace Scope

theorem Sound.inner {s : Scope} (h : s.Sound) : s.inner.Sound where
  bound := by
    intro block hb
    rcases List.mem_cons.mp hb with rfl | hb
    · simp
    · exact h.bound block hb
  named := h.named

/-- Leaving a block forgets its names and keeps its slots. -/
theorem Follows.leave {s s' : Scope} (h : s.Sound) (hf : s.Follows s') :
    s.Follows { s' with blocks := s.blocks } where
  sound := {
    bound := fun block hb p hp =>
      Nat.lt_of_lt_of_le (h.bound block hb p hp) hf.extends'.slots.length_le
    named := hf.sound.named }
  result := hf.result
  extends' := hf.extends'

theorem follows_of_declare {s s' : Scope} {name : String} {type : Ty} {line index : Nat}
    (sound : s.Sound) (named : type.Named) (h : s.declare name type line = .ok (index, s')) :
    s.Follows s' ∧ s'.slots[index]? = some type := by
  unfold declare at h
  simp only at h
  split at h
  next => cases h
  next =>
    cases h
    refine ⟨⟨⟨?_, sound.named.this, sound.named.schema, ?_⟩, rfl, rfl, rfl, ?_⟩, by simp⟩
    · intro block hb p hp
      rw [List.length_append, List.length_singleton]
      rcases List.mem_cons.mp hb with rfl | hb
      · rcases List.mem_cons.mp hp with rfl | hp
        · exact Nat.lt_succ_self _
        · have old : s.blocks.headD [] ∈ s.blocks := by
            cases hs : s.blocks with
            | nil =>
              rw [hs] at hp
              cases hp
            | cons b rest => exact List.mem_cons_self
          exact Nat.lt_succ_of_lt (sound.bound _ old p hp)
      · exact Nat.lt_succ_of_lt (sound.bound block (List.mem_of_mem_tail hb) p hp)
    · intro t ht
      rcases List.mem_append.mp ht with ht | ht
      · exact sound.named.slots t ht
      · exact List.mem_singleton.mp ht ▸ named
    · exact List.prefix_append _ _

end Scope

theorem Stmt.hasType_of_combined {l : Layout} {op : AssignOp} {type : Ty} {old value t : Term}
    {line : Nat} (ho : HasType l old type) (hv : HasType l value type)
    (h : combined op type old value line = .ok t) : HasType l t type := by
  have computed : ∀ o : Arith, o.isBinary = true →
      type.onNumbers op.text line (fun p => Term.arith o p old value) = .ok t →
      HasType l t type := by
    intro o binary h
    obtain ⟨p, rfl, numeric, rfl⟩ := Ty.numeric_of_onNumbers h
    exact .arith binary numeric ho hv
  cases op with
  | set =>
    cases h
    exact hv
  | add =>
    simp only [combined] at h
    split at h
    next ht =>
      cases h
      subst ht
      exact .join ho hv
    next => exact computed .add rfl h
  | sub => exact computed .sub rfl h

/-- What a condition on a line is checked to be. -/
theorem Expr.hasType_of_condition {s : Scope} (sound : s.Sound) {e : Expr} {t c : Term} {type : Ty}
    (h : e.typed s (some .boolean) = .ok (.value t type)) (hc : IsCondition t type c) :
    HasType s.layout c .boolean :=
  hc.hasType ((elaborates_of_typed h).hasType sound fun _ h => Option.some.inj h ▸ .primitive _).1

/-- Type checking gives a statement a well-typed action, in the scope that it leaves behind. -/
def Stmt.Advances (stmt : Stmt) : Prop :=
  ∀ {s s' : Scope} {a : Action}, s.Sound → (∀ type, s.result = some type → type.Named) →
    stmt.typed s = .ok (a, s') → s.Follows s' ∧ a.WellTyped s'.layout s.result

namespace Stmt

theorem follows_of_typedAll {stmts : List Stmt} (each : ∀ stmt ∈ stmts, stmt.Advances)
    {s s' : Scope} {actions : List Action} (sound : s.Sound)
    (result : ∀ type, s.result = some type → type.Named)
    (h : typedAll s stmts = .ok (actions, s')) :
    s.Follows s' ∧ ∀ a ∈ actions, a.WellTyped s'.layout s.result := by
  induction stmts generalizing s actions with
  | nil =>
    obtain ⟨rfl, rfl⟩ := Prod.mk.inj (pure_eq_ok.mp h)
    exact ⟨.refl sound, by simp⟩
  | cons first rest ih =>
    obtain ⟨⟨a, s₁⟩, ha, h⟩ := bind_eq_ok.mp h
    obtain ⟨⟨as, s₂⟩, has, h⟩ := bind_eq_ok.mp h
    obtain ⟨rfl, rfl⟩ := Prod.mk.inj (pure_eq_ok.mp h)
    rw [List.forall_mem_cons] at each
    obtain ⟨follows, typed⟩ := each.1 sound result ha
    obtain ⟨follows', typed'⟩ := ih each.2 follows.sound (follows.result ▸ result) has
    refine ⟨follows.trans follows', List.forall_mem_cons.mpr ⟨typed.extend follows'.extends', ?_⟩⟩
    rw [← follows.result]
    exact typed'

theorem advances_declare {name : String} {type : Option TypeExpr} {value : Expr} {line : Nat}
    (written : ∀ t, type = some t → t.Named) : Advances (.declare name type value line) := by
  intro s s' a sound result h
  cases type with
  | some written' =>
    obtain ⟨type, hr, h⟩ := bind_eq_ok.mp h
    obtain ⟨t, ht, h⟩ := Typed.value_of_termOf h
    obtain ⟨⟨index, s''⟩, hd, h⟩ := bind_eq_ok.mp h
    obtain ⟨rfl, rfl⟩ := Prod.mk.inj (pure_eq_ok.mp h)
    have hn : type.Named := TypeExpr.resolve_named (written _ rfl) hr
    obtain ⟨follows, slot⟩ := Scope.follows_of_declare sound hn hd
    have value := (Expr.elaborates_of_typed ht).hasType sound fun _ h => Option.some.inj h ▸ hn
    exact ⟨follows, .assign (.slot slot) (.nil _) (value.1.extend follows.extends')⟩
  | none =>
    obtain ⟨t, type, ht, h⟩ := Typed.value_of_term h
    obtain ⟨⟨index, s''⟩, hd, h⟩ := bind_eq_ok.mp h
    obtain ⟨rfl, rfl⟩ := Prod.mk.inj (pure_eq_ok.mp h)
    obtain ⟨value, hn⟩ := (Expr.elaborates_of_typed ht).hasType sound fun _ h => by cases h
    obtain ⟨follows, slot⟩ := Scope.follows_of_declare sound hn hd
    exact ⟨follows, .assign (.slot slot) (.nil _) (value.extend follows.extends')⟩

theorem advances_leave {value : Option Expr} {line : Nat} : Advances (.leave value line) := by
  intro s s' a sound result h
  obtain ⟨r, hr, h⟩ := bind_eq_ok.mp h
  obtain ⟨rfl, rfl⟩ := Prod.mk.inj (pure_eq_ok.mp h)
  refine ⟨.refl sound, ?_⟩
  cases value with
  | none =>
    simp only [returned] at hr
    split at hr
    next none =>
      cases hr
      exact .leave none
    next => cases hr
  | some e =>
    simp only [returned] at hr
    split at hr
    next => cases hr
    next type some =>
      obtain ⟨t, ht, h⟩ := Typed.value_of_termOf hr
      obtain rfl := pure_eq_ok.mp h
      exact .leaveWith some ((Expr.elaborates_of_typed ht).hasType sound
        fun _ h => Option.some.inj h ▸ result type some).1

theorem advances_ifElse {condition : Expr} {yes no : Stmt} {line : Nat} (first : yes.Advances)
    (second : no.Advances) : Advances (.ifElse condition yes no line) := by
  intro s s' a sound result h
  obtain ⟨t, type, c, ht, hc, h⟩ := Typed.value_of_condition h
  obtain ⟨⟨b, s₁⟩, hb, h⟩ := bind_eq_ok.mp h
  obtain ⟨⟨b', s₂⟩, hb', h⟩ := bind_eq_ok.mp h
  obtain ⟨rfl, rfl⟩ := Prod.mk.inj (pure_eq_ok.mp h)
  obtain ⟨follows, typed⟩ := first sound result hb
  obtain ⟨follows', typed'⟩ := second follows.sound (follows.result ▸ result) hb'
  have all := follows.trans follows'
  refine ⟨all, .ifElse ((Expr.hasType_of_condition sound ht hc).extend all.extends')
    (typed.extend follows'.extends') ?_⟩
  rw [← follows.result]
  exact typed'

/-- Type checking gives statements well-typed actions. -/
theorem advances {stmt : Stmt} (named : stmt.Named) : stmt.Advances := by
  induction named with
  | block _ ih =>
    intro s s' a sound result h
    obtain ⟨⟨actions, after⟩, ht, h⟩ := bind_eq_ok.mp h
    obtain ⟨rfl, rfl⟩ := Prod.mk.inj (pure_eq_ok.mp h)
    obtain ⟨follows, typed⟩ := follows_of_typedAll ih sound.inner result ht
    exact ⟨Scope.Follows.leave sound ⟨follows.sound, follows.result, follows.extends'⟩,
      .sequence typed⟩
  | declare written => exact advances_declare written
  | assign =>
    intro s s' a sound result h
    obtain ⟨whole, hw, h⟩ := bind_eq_ok.mp h
    obtain ⟨t, ht, h⟩ := Typed.value_of_termOf h
    obtain ⟨stored, hs, h⟩ := bind_eq_ok.mp h
    obtain ⟨rfl, rfl⟩ := Prod.mk.inj (pure_eq_ok.mp h)
    obtain ⟨read, hn, root, first, along⟩ := (Expr.targets_of_targeted hw).hasType sound
    have value := (Expr.elaborates_of_typed ht).hasType sound fun _ h => Option.some.inj h ▸ hn
    exact ⟨.refl sound, .assign first along (hasType_of_combined read value.1 hs)⟩
  | ifThen _ ih =>
    intro s s' a sound result h
    obtain ⟨t, type, c, ht, hc, h⟩ := Typed.value_of_condition h
    obtain ⟨⟨b, s''⟩, hb, h⟩ := bind_eq_ok.mp h
    obtain ⟨rfl, rfl⟩ := Prod.mk.inj (pure_eq_ok.mp h)
    obtain ⟨follows, typed⟩ := ih sound result hb
    exact ⟨follows, .ifThen ((Expr.hasType_of_condition sound ht hc).extend follows.extends') typed⟩
  | ifElse _ _ ih ih' => exact advances_ifElse ih ih'
  | loop _ ih =>
    intro s s' a sound result h
    obtain ⟨t, type, c, ht, hc, h⟩ := Typed.value_of_condition h
    obtain ⟨⟨b, s''⟩, hb, h⟩ := bind_eq_ok.mp h
    obtain ⟨rfl, rfl⟩ := Prod.mk.inj (pure_eq_ok.mp h)
    obtain ⟨follows, typed⟩ := ih sound result hb
    exact ⟨follows, .loop ((Expr.hasType_of_condition sound ht hc).extend follows.extends') typed⟩
  | leave => exact advances_leave
  | evaluate =>
    intro s s' a sound result h
    obtain ⟨r, hr, h⟩ := bind_eq_ok.mp h
    cases r with
    | value t type =>
      obtain ⟨rfl, rfl⟩ := Prod.mk.inj (pure_eq_ok.mp h)
      exact ⟨.refl sound,
        .evaluate ((Expr.elaborates_of_typed hr).hasType sound fun _ h => by cases h).1⟩
    | effect action =>
      obtain ⟨rfl, rfl⟩ := Prod.mk.inj (pure_eq_ok.mp h)
      exact ⟨.refl sound, (Expr.acts_of_typed hr).wellTyped sound⟩

end Stmt

end Covenant
