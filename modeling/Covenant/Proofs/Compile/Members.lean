import Covenant.Compile
import Covenant.Proofs.Compile.Acceptance
import Covenant.Proofs.Schema
import Covenant.Proofs.Syntax.Members
import Mathlib.Data.List.Pairwise
/-!
The names of the members of a record.

* `Member.Apart`: two members that a program may declare in one record;
* `Schema.checkFunctions_eq_ok`, `Schema.apart_of_ofRecord`: which members are accepted;
* `Schema.record_of_mem`: the records of a schema are found by their names;
* `members_are_told_apart`: the functions of a record are found and compiled by their names, unless one of two
  of a name is the constructor;
* `constructor_is_passed_over`: a function that is declared before the constructor, with its name, is compiled
  in its place.
-/

namespace Covenant

/-! ## Members -/

/-- A field or a function of a record. -/
abbrev Member := FieldDecl ⊕ FunctionDecl

namespace Member

def name : Member → String := Sum.elim FieldDecl.name FunctionDecl.name

def isConstructor : Member → Bool := Sum.elim (fun _ => false) FunctionDecl.isConstructor

/-- Members of different names, or the constructor and another one. -/
def Apart (m n : Member) : Prop :=
  m.isConstructor = n.isConstructor → m.isConstructor = false ∧ m.name ≠ n.name

instance : Std.Symm Apart :=
  ⟨fun _ _ h same => ⟨same.trans (h same.symm).1, (h same.symm).2.symm⟩⟩

end Member

def RecordDecl.members (r : RecordDecl) : List Member := r.fields.map .inl ++ r.functions.map .inr

namespace Schema

/-- The names of fields are noted. -/
theorem mem_of_checkFields {record : String} {seen seen' : List String} {fields : List FieldDecl}
    (h : checkFields record seen fields = .ok seen') {name : String} :
    name ∈ seen' ↔ name ∈ seen ∨ ∃ f ∈ fields, f.name = name := by
  induction fields generalizing seen with
  | nil =>
    obtain rfl := pure_eq_ok.mp h
    simp
  | cons f rest ih =>
    rw [checkFields] at h
    split at h
    · cases h
    next =>
      rw [ih h, List.mem_cons, List.exists_mem_cons_iff, or_assoc, or_left_comm, eq_comm]

/-- Functions are accepted where all are apart, and have other names than those seen before. -/
theorem checkFunctions_eq_ok {record : String} {seen : List String} {found : Bool}
    {functions : List FunctionDecl} : checkFunctions record seen found functions = .ok () ↔
      functions.Pairwise (fun f g => Member.Apart (.inr f) (.inr g)) ∧
        ∀ f ∈ functions, if f.isConstructor then found = false else f.name ∉ seen := by
  induction functions generalizing seen found with
  | nil => exact iff_of_true rfl (by simp)
  | cons f rest ih =>
    rw [checkFunctions, List.pairwise_cons, List.forall_mem_cons]
    cases hf : f.isConstructor with
    | true =>
      have apart (g : FunctionDecl) : Member.Apart (.inr f) (.inr g) ↔ g.isConstructor = false := by
        simp [Member.Apart, Member.isConstructor, hf]
      cases found with
      | true => exact iff_of_false nofun fun accepted => nomatch accepted.2.1
      | false =>
        rw [if_pos rfl, if_neg Bool.false_ne_true, ih]
        grind
    | false =>
      have apart (g : FunctionDecl) : Member.Apart (.inr f) (.inr g) ↔
          (g.isConstructor = false → g.name ≠ f.name) := by
        rw [ne_comm]
        simp [Member.Apart, Member.isConstructor, Member.name, hf]
      rw [if_neg Bool.false_ne_true]
      by_cases old : f.name ∈ seen
      · rw [if_pos (List.contains_iff_mem.mpr old)]
        exact iff_of_false nofun fun accepted => accepted.2.1 old
      · rw [if_neg (mt List.contains_iff_mem.mp old), ih]
        grind

/-- All members of an accepted record are apart. -/
theorem apart_of_ofRecord {records : List String} {declaration : RecordDecl} {r : RecordSchema}
    (h : ofRecord records declaration = .ok r) : declaration.members.Pairwise Member.Apart := by
  obtain ⟨seen, fields, h⟩ := bind_eq_ok.mp h
  obtain ⟨_, functions, -⟩ := bind_eq_ok.mp h
  obtain ⟨apart, others⟩ := checkFunctions_eq_ok.mp functions
  rw [RecordDecl.members, List.pairwise_append, List.pairwise_map, List.pairwise_map]
  refine ⟨?_, apart, ?_⟩
  · have names := List.pairwise_map.mp (nodup_of_checkFields fields).1
    exact names.imp fun other _ => ⟨rfl, other⟩
  · rintro m hm n hn same
    obtain ⟨f, hf, rfl⟩ := List.mem_map.mp hm
    obtain ⟨g, hg, rfl⟩ := List.mem_map.mp hn
    have new := others g hg
    rw [if_neg (by rw [← show false = g.isConstructor from same]; exact Bool.false_ne_true)] at new
    exact ⟨rfl, fun name => new ((mem_of_checkFields fields).mpr (.inr ⟨f, hf, name⟩))⟩

/-! ## Lookups by name -/

theorem nodup_of_checkRecords {seen : List String} {program : Program}
    (h : checkRecords seen program = .ok ()) :
    (program.map RecordDecl.name).Nodup ∧ ∀ d ∈ program, d.name ∉ seen := by
  induction program generalizing seen with
  | nil => simp
  | cons d rest ih =>
    rw [checkRecords] at h
    split at h
    · cases h
    next new => exact nodup_cons_of_new (mt List.contains_iff_mem.mpr new) (ih h)

/-- The records of a schema are found by their names. -/
theorem record_of_mem {program : Program} {schema : Schema} (h : ofProgram program = .ok schema)
    {r : RecordSchema} (hr : r ∈ schema) : schema.record r.name = .ok r := by
  obtain ⟨_, different, h⟩ := bind_eq_ok.mp h
  have names : schema.map RecordSchema.name = program.map RecordDecl.name :=
    (map_eq_of_forall₂ ((mapM_eq_ok.mp h).imp fun d r made =>
      congrArg RecordDecl.name (declared_of_ofRecord made).1.symm)).symm
  have nodup : (schema.map RecordSchema.name).Nodup := names ▸ (nodup_of_checkRecords different).1
  refine record_eq_ok.mpr (find?_eq_of_only hr (beq_self_eq_true _) fun r' hr' same => ?_)
  exact List.inj_on_of_nodup_map nodup hr' hr (beq_iff_eq.mp same)

end Schema

/-- A name has no point. -/
theorem Lexeme.IsName.ne_readAuthName {name : String} (h : IsName name.toList) : name ≠ readAuthName := by
  rintro rfl
  exact absurd (h.2 '.' (by decide)) (by decide)

/-- Compiles a declared function of a record, whose directives are checked first. -/
def Schema.compileDeclared (schema : Schema) (r : RecordSchema) (f : FunctionDecl) :
    Except CompileError Compiled := do
  r.checkDirectives
  let readPolicy ← schema.readPolicy r
  schema.compileFunction r readPolicy f

/-- The function that is found by a name is the one that is compiled. -/
theorem Program.compile_of_function? {program : Program} {schema : Schema}
    (h : Schema.ofProgram program = .ok schema) {r : RecordSchema} (hr : r ∈ schema) {name : String}
    {f : FunctionDecl} (found : r.function? name = some f) (other : name ≠ readAuthName) :
    program.compile r.name name = schema.compileDeclared r f := by
  unfold compile Schema.compileDeclared
  rw [h, ok_bind, Schema.record_of_mem h hr, ok_bind, found]
  simp only [if_neg other]

/-- Functions of one name are the same where the constructor is not only one of them. -/
theorem RecordDecl.eq_of_apart {r : RecordDecl} (apart : r.members.Pairwise Member.Apart) {f g : FunctionDecl}
    (hf : f ∈ r.functions) (hg : g ∈ r.functions) (name : f.name = g.name)
    (kind : f.isConstructor = g.isConstructor) : f = g := by
  have member {f : FunctionDecl} (hf : f ∈ r.functions) : .inr f ∈ r.members :=
    List.mem_append_right _ (List.mem_map_of_mem hf)
  by_contra other
  exact (apart.forall (member hf) (member hg) (Sum.inr_injective.ne other) kind).2 name

/-- Where a text writes the record, only functions can share the name of the constructor. -/
theorem RecordDecl.Reserves.nodup {r : RecordDecl} (reserves : r.Reserves)
    (apart : r.members.Pairwise Member.Apart)
    (free : ∀ c ∈ r.functions, ∀ f ∈ r.functions, c.isConstructor = true → f.isConstructor = false →
      f.name ≠ "constructor") : (r.members.map Member.name).Nodup := by
  have reserved : ∀ m ∈ r.members, ∀ n ∈ r.members, m.isConstructor = true → n.isConstructor = false →
      m.name ≠ n.name := by
    intro m hm n hn first second
    rcases List.mem_append.mp hm with hm | hm
    · obtain ⟨_, -, rfl⟩ := List.mem_map.mp hm
      cases first
    obtain ⟨c, hc, rfl⟩ := List.mem_map.mp hm
    rw [show (Member.name (.inr c)) = "constructor" from reserves.functions c hc first]
    rcases List.mem_append.mp hn with hn | hn
    · obtain ⟨f, hf, rfl⟩ := List.mem_map.mp hn
      exact (reserves.fields f hf).symm
    · obtain ⟨f, hf, rfl⟩ := List.mem_map.mp hn
      exact (free c hc f hf first second).symm
  refine List.pairwise_map.mpr (apart.imp_of_mem fun {m n} hm hn different => ?_)
  cases first : m.isConstructor <;> cases second : n.isConstructor
  · exact (different (first.trans second.symm)).2
  · exact (reserved n hn m hm second first).symm
  · exact reserved m hm n hn first second
  · exact (different (first.trans second.symm)).2

/-- In the records of an accepted program one function at most is the constructor, and no two other members
share a name. So each function is the only one of its name, and the one that is found and compiled by it,
unless just one of two functions of that name is the constructor. Where a text writes the program, these are
the constructor and a function that has the word for it as its name; in records without the two, no members at
all share a name, and each function is compiled by its own, the constructor by the word for it. -/
theorem members_are_told_apart {program : Program} {schema : Schema}
    (accepted : Schema.ofProgram program = .ok schema) {r : RecordSchema} (hr : r ∈ schema) :
    r.declaration.members.Pairwise Member.Apart ∧
      (∀ f ∈ r.declaration.functions,
        (∀ g ∈ r.declaration.functions, g.name = f.name → g.isConstructor = f.isConstructor) →
          (∀ g ∈ r.declaration.functions, g.name = f.name → g = f) ∧ r.function? f.name = some f ∧
            (f.name ≠ readAuthName → program.compile r.name f.name = schema.compileDeclared r f)) ∧
      ∀ source, Program.read source = .ok program →
        (∀ c ∈ r.declaration.functions, c.isConstructor = true → c.name = "constructor") ∧
        ((∀ c ∈ r.declaration.functions, ∀ f ∈ r.declaration.functions, c.isConstructor = true →
          f.isConstructor = false → f.name ≠ "constructor") →
          (r.declaration.members.map Member.name).Nodup ∧ ∀ f ∈ r.declaration.functions,
            r.function? f.name = some f ∧ program.compile r.name f.name = schema.compileDeclared r f) := by
  obtain ⟨declared, -⟩ := Schema.declared_of_ofProgram accepted hr
  have apart : r.declaration.members.Pairwise Member.Apart := by
    obtain ⟨_, -, made⟩ := bind_eq_ok.mp accepted
    obtain ⟨d, -, made⟩ := exists_of_forall₂ (mapM_eq_ok.mp made) hr
    rw [(Schema.declared_of_ofRecord made).1]
    exact Schema.apart_of_ofRecord made
  have compiled {f : FunctionDecl} (found : r.function? f.name = some f) (other : f.name ≠ readAuthName) :=
    Program.compile_of_function? accepted hr found other
  refine ⟨apart, fun f hf alone => ?_, fun source read => ?_⟩
  · have only : ∀ g ∈ r.declaration.functions, g.name = f.name → g = f :=
      fun g hg name => RecordDecl.eq_of_apart apart hg hf name (alone g hg name)
    have found : r.function? f.name = some f :=
      find?_eq_of_only hf (beq_self_eq_true _) fun g hg same => only g hg (beq_iff_eq.mp same)
    exact ⟨only, found, compiled found⟩
  · have reserves := Program.reserves_of_read read _ declared
    refine ⟨reserves.functions, fun free => ?_⟩
    have nodup := reserves.nodup apart free
    refine ⟨nodup, fun f hf => ?_⟩
    have names : (r.declaration.functions.map FunctionDecl.name).Nodup := by
      rw [RecordDecl.members, List.map_append, List.map_map, List.map_map] at nodup
      exact nodup.of_append_right
    have found : r.function? f.name = some f :=
      find?_eq_of_only hf (beq_self_eq_true _) fun g hg same =>
        List.inj_on_of_nodup_map names hg hf (beq_iff_eq.mp same)
    have named := ((Program.named_of_read read _ declared).functions f hf).name
    exact ⟨found, compiled found named.ne_readAuthName⟩

/-- A record with a constructor, and with a function that has another word as its name. -/
def clubSource : String := "collection Club \x7b id: string; members: u32; function contract(): u32 \x7b " ++
  "return this.members; \x7d constructor(name: string) \x7b this.id = name; \x7d " ++
  "@call join() \x7b this.members += 1; \x7d \x7d"

/-- The word for the constructor leads to it, between the other functions. -/
theorem club_is_made_by_constructor : ∃ program schema r c, Program.read clubSource = .ok program ∧
    Schema.ofProgram program = .ok schema ∧ r ∈ schema ∧ c ∈ r.declaration.functions ∧
    c.isConstructor = true ∧
    r.declaration.members.map Member.name = ["id", "members", "contract", "constructor", "join"] ∧
    program.compile r.name "constructor" = schema.compileDeclared r c ∧
    (∃ compiled, schema.compileDeclared r c = .ok compiled) := by
  have found : (do
      let program ← (Program.read clubSource).toOption
      let schema ← (Schema.ofProgram program).toOption
      let r ← schema.head?
      let c ← r.constructor?
      let compiled ← (schema.compileDeclared r c).toOption
      return r.declaration.members.map Member.name == ["id", "members", "contract", "constructor", "join"] &&
        r.declaration.functions.all fun f => f.isConstructor || f.name != "constructor") = some true := by
    decide +kernel
  simp only [Option.bind_eq_bind, Option.bind_eq_some_iff, toOption_eq_some, Option.pure_def,
    Option.some.injEq, Bool.and_eq_true, beq_iff_eq, List.all_eq_true, Bool.or_eq_true, bne_iff_ne] at found
  obtain ⟨program, read, schema, accepted, r, first, c, constructs, compiled, done, names, free⟩ := found
  have hr : r ∈ schema := List.mem_of_head? first
  have hc : c ∈ r.declaration.functions := List.mem_of_find?_eq_some constructs
  have kind : c.isConstructor = true := List.find?_some constructs
  obtain ⟨-, -, written⟩ := members_are_told_apart accepted hr
  obtain ⟨named, alone⟩ := written clubSource read
  have selected := (alone fun c _ f hf _ other => (free f hf).resolve_left (by rw [other]; nofun)).2 c hc
  rw [named c hc kind] at selected
  exact ⟨program, schema, r, c, read, accepted, hr, hc, kind, names, selected.2, compiled, done⟩

/-! ## A function in the place of the constructor -/

/-- The word for the constructor is also the name of a function before it. -/
def twofoldSource : String := "contract R \x7b id: string; " ++
  "@call function constructor(): u32 \x7b return 1; \x7d constructor() \x7b this.id = \"made\"; \x7d \x7d"

/-- The record is accepted, and its constructor is not found. -/
theorem constructor_is_passed_over : ∃ program schema r f c compiled,
    Program.read twofoldSource = .ok program ∧ Schema.ofProgram program = .ok schema ∧
    schema.record "R" = .ok r ∧
    ¬ (r.declaration.members.map Member.name).Nodup ∧ r.constructor? = some c ∧ c.name = "constructor" ∧
    r.function? c.name = some f ∧ f.isConstructor = false ∧ program.compile "R" "constructor" = .ok compiled ∧
    compiled.abi.returnType = some (.primitive .u32) := by
  have found : (do
      let program ← (Program.read twofoldSource).toOption
      let schema ← (Schema.ofProgram program).toOption
      let r ← (schema.record "R").toOption
      let c ← r.constructor?
      let f ← r.function? c.name
      let compiled ← (program.compile "R" "constructor").toOption
      return !decide (r.declaration.members.map Member.name).Nodup && (c.name == "constructor" &&
        (!f.isConstructor && compiled.abi.returnType == some (.primitive .u32)))) = some true := by
    decide +kernel
  simp only [Option.bind_eq_bind, Option.bind_eq_some_iff, toOption_eq_some, Option.pure_def,
    Option.some.injEq, Bool.and_eq_true, Bool.not_eq_true', decide_eq_false_iff_not, beq_iff_eq] at found
  obtain ⟨program, hp, schema, hs, r, hr, c, hc, f, hf, compiled, done, twice, word, other, result⟩ := found
  exact ⟨program, schema, r, f, c, compiled, hp, hs, hr, twice, hc, word, hf, other, done, result⟩

end Covenant
