import Covenant.Proofs.Run.Authorization
import Covenant.Proofs.Run.Marks
import Covenant.Proofs.Statement.Runs
/-!
A function does what its body does.

* `Scope.Separate`: what is declared under different names, or under one name in different blocks, has
  different slots. No statement changes this;
* `Memory.Assigns`: an assignment or a push changes the part at the end of its path and nothing else;
* `CheckedFunction.Executed`, `Stmt.ChangesOnePart`, `Scope.Resolves`: what that says of a body, of assignments
  and of names;
* `body_is_executed`: from the first instruction of its body on, the code of a function does what the body
  does as it is read, wherever a run starts from.
-/

namespace Covenant

open Code Machine
open Evaluation (lift)

/-! ## Slots of names -/

/-- Each declaration of an open block has a slot of its own. -/
structure Scope.Separate (s : Scope) : Prop where
  nodup : (s.blocks.flatten.map Prod.snd).Nodup
  early : ∀ p ∈ s.blocks.flatten, p.2 < s.slots.length

namespace Scope

theorem mem_of_lookup? {s : Scope} {name : String} {index : Nat} (h : s.lookup? name = some index) :
    (name, index) ∈ s.blocks.flatten := by
  obtain ⟨block, hb, found⟩ := List.exists_of_findSome?_eq_some h
  exact List.mem_flatten.mpr ⟨block, hb, mem_of_lookup found⟩

/-- Different names stand for different slots. -/
theorem Separate.ne {s : Scope} (separate : s.Separate) {name other : String} {index place : Nat}
    (ne : name ≠ other) (h : s.lookup? name = some index) (h' : s.lookup? other = some place) :
    index ≠ place := by
  rintro rfl
  have same := List.inj_on_of_nodup_map separate.nodup (mem_of_lookup? h) (mem_of_lookup? h') rfl
  exact ne (congrArg Prod.fst same)

theorem flatten_bind (s : Scope) (name : String) (type : Ty) :
    (s.bind name type).blocks.flatten = (name, s.slots.length) :: s.blocks.flatten := by
  unfold bind
  cases s.blocks <;> rfl

theorem Separate.bind {s : Scope} (separate : s.Separate) (name : String) (type : Ty) :
    (s.bind name type).Separate where
  nodup := by
    rw [flatten_bind, List.map_cons, List.nodup_cons]
    refine ⟨fun h => ?_, separate.nodup⟩
    obtain ⟨p, hp, same⟩ := List.mem_map.mp h
    exact absurd same (Nat.ne_of_lt (separate.early p hp))
  early p hp := by
    have longer : (s.bind name type).slots.length = s.slots.length + 1 := List.length_append
    rw [flatten_bind] at hp
    rw [longer]
    rcases List.mem_cons.mp hp with rfl | old
    · exact Nat.lt_succ_self _
    · exact Nat.lt_succ_of_lt (separate.early p old)

theorem Separate.inner {s : Scope} (separate : s.Separate) : s.inner.Separate :=
  ⟨separate.nodup, separate.early⟩

/-- The slots that blocks have used are not used again. -/
theorem Separate.block {s s' : Scope} (separate : s.Separate) (more : s.slots.length ≤ s'.slots.length) :
    Separate { s' with blocks := s.blocks } :=
  ⟨separate.nodup, fun p hp => Nat.lt_of_lt_of_le (separate.early p hp) more⟩

end Scope

namespace Stmt

mutual
theorem slots_after_le (s : Scope) : ∀ stmt : Stmt, s.slots.length ≤ (after s stmt).slots.length
  | .block statements _ => slots_afterAll_le s.inner statements
  | .declare _ _ _ _ => by
    rw [after, Scope.bind, List.length_append]
    exact Nat.le_add_right _ _
  | .ifThen _ yes _ => slots_after_le s yes
  | .ifElse _ yes no _ => Nat.le_trans (slots_after_le s yes) (slots_after_le (after s yes) no)
  | .loop _ body _ => slots_after_le s body
  | .assign _ _ _ _ | .leave _ _ | .evaluate _ _ => Nat.le_refl _

theorem slots_afterAll_le (s : Scope) : ∀ stmts : List Stmt,
    s.slots.length ≤ (afterAll s stmts).slots.length
  | [] => Nat.le_refl _
  | first :: rest => Nat.le_trans (slots_after_le s first) (slots_afterAll_le (after s first) rest)
end

mutual
/-- After a statement names still have slots of their own. -/
theorem separate_after {s : Scope} (separate : s.Separate) : ∀ stmt : Stmt, (after s stmt).Separate
  | .block statements _ => separate.block (slots_afterAll_le s.inner statements)
  | .declare name _ _ _ => separate.bind name _
  | .ifThen _ yes _ => separate_after separate yes
  | .ifElse _ yes no _ => separate_after (separate_after separate yes) no
  | .loop _ body _ => separate_after separate body
  | .assign _ _ _ _ | .leave _ _ | .evaluate _ _ => separate
end

end Stmt

/-! ## Assignments -/

/-- An assignment to a target goes on: its path and the new value are evaluated, and the part at the end of
the path is replaced by that value. -/
def Memory.Assigns (around : Surroundings) (s : Scope) (t : Memory) (target : Expr)
    (new : World → Evaluation Datum → Evaluation Datum) (t' : Memory) : Prop :=
  let w := t.world around
  let whole := w.root (target.root s)
  ∃ path c value, (Expr.located s w whole target.route).run t.computed = .ok (path, c) ∧
    (new w (lift (Datum.partAlong whole path))).run c = .ok (value, t'.computed) ∧
    t.Changes t' (target.root s) path value

theorem Memory.computed_of_put {around : Surroundings} {m m' : Memory} {root : Root}
    {path : List (Step Datum)} {value : Datum} (h : m.put around root path value = .next m') :
    m'.computed = m.computed := by
  unfold put at h
  split at h
  · cases root with
    | slot index =>
      obtain ⟨-, rfl⟩ := store_slot h
      rfl
    | field name =>
      obtain ⟨-, -, rfl⟩ := store_field h
      rfl
  · cases h

theorem Memory.assigns_of_assign {around : Surroundings} {s : Scope} {t t' : Memory} {target : Expr}
    {new : World → Evaluation Datum → Evaluation Datum} (h : t.assign around s target new = .next t') :
    t.Assigns around s target new t' := by
  unfold assign evaluate at h
  dsimp only at h
  split at h
  next a c run =>
    obtain ⟨⟨path, c'⟩, located, rest⟩ := bind_eq_ok.mp run
    obtain ⟨⟨value, c''⟩, made, rest⟩ := bind_eq_ok.mp rest
    cases rest
    have changes := changes_of_put h
    refine ⟨path, c', value, located, ?_, changes.part, changes.apart, changes.others, changes.locals⟩
    rw [computed_of_put h]
    exact made
  next => cases h

/-! ## Checked functions -/

namespace Schema

theorem scope_of_declareAll {s s' : Scope} {parameters : List (String × Ty)}
    (h : declareAll s parameters = .ok s') :
    s' = parameters.foldl (fun s p => s.bind p.1 p.2) s ∧ s'.result = s.result := by
  induction parameters generalizing s with
  | nil =>
    obtain rfl := pure_eq_ok.mp h
    exact ⟨rfl, rfl⟩
  | cons p rest ih =>
    obtain ⟨⟨index, s₁⟩, hd, h⟩ := bind_eq_ok.mp h
    obtain ⟨-, rfl⟩ := Scope.bind_of_declare hd
    exact ih h

/-- The body of a checked function is checked where the parameters have been declared. -/
theorem body_of_check {schema : Schema} {record : RecordSchema} {declaration : FunctionDecl}
    {f : CheckedFunction} (h : schema.check record declaration = .ok f) :
    f.name = declaration.name ∧ f.result = (declaration.scope schema record).result ∧
      ∃ s', declaration.body.typed (declaration.scope schema record) = .ok (f.body, s') := by
  obtain ⟨parameters, hp, h⟩ := bind_eq_ok.mp h
  obtain ⟨result, hres, h⟩ := bind_eq_ok.mp h
  obtain ⟨policy, -, h⟩ := bind_eq_ok.mp h
  obtain ⟨scope, hd, h⟩ := bind_eq_ok.mp h
  obtain ⟨⟨body, last⟩, hb, h⟩ := bind_eq_ok.mp h
  obtain rfl := pure_eq_ok.mp h
  have returned : result = declaration.result.bind
      fun type => (schema.resolve declaration.line type).toOption := by
    rcases optionMapM_eq_ok.mp hres with ⟨none, rfl⟩ | ⟨type, resolved, some, rfl, hr⟩
    · rw [none]
      rfl
    · rw [some, Option.bind_some, hr]
      rfl
  have declared : parameters = declaration.parameters.map
      fun p => (p.name, (schema.resolve p.line p.type).toOption.getD .publicKey) := by
    refine Eq.trans (List.map_id' _).symm (map_eq_of_forall₂ ((mapM_eq_ok.mp hp).imp ?_)).symm
    intro p q hq
    obtain ⟨type, ht, hq⟩ := bind_eq_ok.mp hq
    obtain rfl := pure_eq_ok.mp hq
    rw [ht]
    rfl
  have same : scope = declaration.scope schema record := by
    rw [(scope_of_declareAll hd).1, declared, returned, List.foldl_map]
    rfl
  rw [← same]
  exact ⟨rfl, (scope_of_declareAll hd).2.symm, last, hb⟩

end Schema

/-- Parameters have slots of their own. -/
theorem FunctionDecl.separate_scope (schema : Schema) (record : RecordSchema) (declaration : FunctionDecl) :
    (declaration.scope schema record).Separate := by
  suffices all : ∀ (parameters : List Parameter) {s : Scope}, s.Separate →
      (parameters.foldl (fun s p =>
        s.bind p.name ((schema.resolve p.line p.type).toOption.getD .publicKey)) s).Separate from
    all _ ⟨List.nodup_nil, fun _ h => by cases h⟩
  intro parameters
  induction parameters with
  | nil => exact fun separate => separate
  | cons p rest ih => exact fun separate => ih (separate.bind _ _)

/-! ## Bodies -/

def Machine.memory (m : Machine) : Memory := ⟨m.locals, m.receiver, m.computed⟩

theorem Mirrors.memory {around : Surroundings} {m : Machine}
    (early : (m.memory.world around).Before m.computed) : Mirrors around id m.memory m where
  renames := .id _
  early := early
  world := World.renamed_id _
  computed := rfl

namespace CheckedFunction

/-- A body that has not left the function is followed by what leaves it. -/
theorem happens_ending (f : CheckedFunction) {l : Linkage} {around : Surroundings} {g : Nat → Nat}
    {t : Memory} {m : Machine} {place fuel : Nat} (holds : l.Holds m.place f.ending)
    (mirrors : Mirrors around g t m) :
    Happens l.code around m.stack g t.computed m place fuel (Outcome.unreturned f.name f.result t) := by
  unfold ending at holds
  unfold Outcome.unreturned
  cases result : f.result with
  | none =>
    rw [result] at holds
    exact @Action.Does.leave l 0 around fuel g t m holds mirrors
  | some type =>
    rw [result] at holds
    exact @Action.Does.abort _ _ (Term.computes_literal (.string _)) (fun _ _ _ _ => .pure rfl) l 0 around
      fuel g t m holds mirrors

/-- The body of a checked function and what follows it do what the function does as it is read. -/
theorem happens_body {schema : Schema} {record : RecordSchema} {declaration : FunctionDecl}
    {f : CheckedFunction} (checked : schema.check record declaration = .ok f) {l : Linkage} {n : Nat}
    {around : Surroundings} {g : Nat → Nat} {t : Memory} {m : Machine} {place fuel : Nat}
    (holds : l.Holds m.place (f.body.code n ++ f.ending)) (mirrors : Mirrors around g t m) :
    Happens l.code around m.stack g t.computed m place fuel
      (declaration.exec schema record around fuel t) := by
  obtain ⟨name, result, _, typed⟩ := Schema.body_of_check checked
  obtain ⟨body, ending⟩ := Linkage.holds_append.mp holds
  refine ((Stmt.is_typed declaration.body typed).does l n body mirrors).andThen ?_
  intro t g m' _ same here mirrors'
  rw [← here] at ending
  rw [← same, ← name, ← result]
  exact f.happens_ending ending mirrors'

end CheckedFunction

theorem FunctionDecl.exec_ne_next (schema : Schema) (record : RecordSchema) (around : Surroundings)
    (fuel : Nat) (declaration : FunctionDecl) (t t' : Memory) :
    declaration.exec schema record around fuel t ≠ .next t' := by
  unfold exec
  dsimp only
  cases declaration.body.exec around fuel (declaration.scope schema record) t with
  | next t =>
    simp only [Outcome.andThen, Outcome.unreturned]
    cases (declaration.scope schema record).result <;> simp
  | _ => simp [Outcome.andThen]

/-- A run fails just where what it does fails. -/
theorem Happens.fails_iff {code : LinkedCode} {around : Surroundings} {stack : List Datum} {f : Nat → Nat}
    {n place : Nat} {m : Machine} {exec : Nat → Outcome}
    (happens : ∀ fuel, Happens code around stack f n m place fuel (exec fuel))
    (ends : ∀ fuel t, exec fuel ≠ .next t) (failure : Failure) :
    (∃ fuel failed, exec fuel = .failed failed ∧ failed.upToMarks = failure) ↔
      ∃ k m' failed, Reaches code around m k m' ∧ Fails code around m' failed ∧
        failed.upToMarks = failure := by
  constructor
  · rintro ⟨fuel, failed, failing, rfl⟩
    have happens := happens fuel
    rw [failing] at happens
    obtain ⟨g, k, m', -, reached, fails⟩ := happens
    exact ⟨k, m', _, reached, fails, failed.upToMarks_renamed⟩
  · rintro ⟨k, m', failed, reached, ⟨m'', fails⟩, rfl⟩
    -- with this fuel the reading has ended where the run has
    refine ⟨k + 1, ?_⟩
    have happens := happens (k + 1)
    cases outcome : exec (k + 1) with
    | next t => exact absurd outcome (ends _ t)
    | left departure t =>
      rw [outcome] at happens
      obtain ⟨g, k', a, a', -, reached', departs, -⟩ := happens
      cases (reached.same_end reached' fails departs (by simp) (by simp)).1
    | failed other =>
      rw [outcome] at happens
      obtain ⟨g, k', a, -, reached', a', fails'⟩ := happens
      cases (reached.same_end reached' fails fails' (by simp) (by simp)).1
      exact ⟨other, rfl, other.upToMarks_renamed.symm⟩
    | running =>
      rw [outcome] at happens
      obtain ⟨k', a, few, reached'⟩ := happens
      obtain ⟨_, next⟩ := reached'.goes_on reached few
      cases fails.symm.trans next

/-- How the code of a function does what its body does as it is read. -/
structure CheckedFunction.Executed (schema : Schema) (record : RecordSchema) (declaration : FunctionDecl)
    (c : Compiled) (code : LinkedCode) (f : CheckedFunction) : Prop where
  code_eq : c.code = f.guard ++ (f.body.code f.guardLabels ++ f.ending)
  /-- from the first instruction of the body on, the code leaves the function alike, fails alike, or goes on
  for as long as the reading does -/
  happens : ∀ around (m : Machine), m.place = f.guard.size → (m.memory.world around).Before m.computed →
    ∀ fuel, Happens code around m.stack id m.computed m code.size fuel
      (declaration.exec schema record around fuel m.memory)
  /-- it fails only where the reading fails -/
  fails : ∀ around (m : Machine), m.place = f.guard.size → (m.memory.world around).Before m.computed →
    ∀ failure, (∃ fuel failed, declaration.exec schema record around fuel m.memory = .failed failed ∧
        failed.upToMarks = failure) ↔
      ∃ k m' failed, Reaches code around m k m' ∧ Fails code around m' failed ∧
        failed.upToMarks = failure
  /-- no mark of a later operation is in what a run starts with -/
  starts : ∀ {call inputs records} fingerprint, Inputs.ofCall c.abi call = .ok inputs → call.Before 0 →
    LinkedFunction.recordsOf inputs.others = .ok records →
    let start := LinkedFunction.machine ⟨c.abi, c.header, code, fingerprint⟩ inputs
    (start.memory.world ⟨inputs.callerKey, records⟩).Before start.computed
  /-- the code of each statement does what the statement does, with the stack that was there before -/
  statement : ∀ {s s' : Scope} {stmt : Stmt} {a : Action} {n : Nat} {before after : Code},
    stmt.typed s = .ok (a, s') → c.code = before ++ (a.code n ++ after) →
    s' = stmt.after s ∧ ∀ {around fuel g t} {m : Machine}, m.place = before.size →
      Mirrors around g t m → Happens code around m.stack g t.computed m
        (before.size + (a.code n).size) fuel (stmt.exec around fuel s t)
  /-- parameters have slots of their own -/
  parameters : (declaration.scope schema record).Separate

/-- Assignments and pushes change the part at the end of their path and nothing else. -/
structure Stmt.ChangesOnePart : Prop where
  assign : ∀ {around fuel s target op value line t t'},
    (Stmt.assign target op value line).exec around fuel s t = .next t' →
    t.Assigns around s target (value.assigned s (target.typeOf s none) op) t'
  push : ∀ {around fuel s object item line line' t t'},
    (Stmt.evaluate (.method object "push" [item] line) line').exec around fuel s t = .next t' →
    t.Assigns around s object (item.pushed s ((object.typeOf s none).bind Ty.element?)) t'

/-- Names stand for the innermost declaration before them, each of which has a slot of its own. -/
structure Scope.Resolves : Prop where
  inner : ∀ {s : Scope}, s.Separate → s.inner.Separate
  after : ∀ {s : Scope}, s.Separate → ∀ stmt : Stmt, (stmt.after s).Separate
  apart : ∀ {s : Scope}, s.Separate → ∀ {name other index place}, name ≠ other →
    s.lookup? name = some index → s.lookup? other = some place → index ≠ place
  declare : ∀ {s : Scope} name type value line, let s' := (Stmt.declare name type value line).after s
    s'.lookup? name = some s.slots.length ∧ ∀ other ≠ name, s'.lookup? other = s.lookup? other
  begin : ∀ {s : Scope} name, s.inner.lookup? name = s.lookup? name
  block : ∀ {s : Scope} name statements line,
    ((Stmt.block statements line).after s).lookup? name = s.lookup? name

theorem Stmt.changesOnePart : Stmt.ChangesOnePart where
  assign h := by
    rw [Stmt.exec] at h
    exact Memory.assigns_of_assign h
  push h := by
    rw [Stmt.exec] at h
    exact Memory.assigns_of_assign h

theorem Scope.resolves : Scope.Resolves where
  inner separate := separate.inner
  after separate := Stmt.separate_after separate
  apart separate := separate.ne
  declare _ _ _ _ := ⟨Scope.lookup?_bind _ _ _, fun _ ne => Scope.lookup?_bind_of_ne ne _⟩
  begin _ := Scope.lookup?_inner _ _
  block _ _ _ := rfl

/-- From the first instruction of the body of a compiled function, whatever is on the stack, in the locals
and in the receiver, the code does what the body does as it is read. -/
theorem body_is_executed {program : Program} {contract function : String} {c : Compiled}
    {schema : Schema} {record : RecordSchema} {declaration : FunctionDecl} {code : LinkedCode}
    (compiled : program.compile contract function = .ok c)
    (hs : Schema.ofProgram program = .ok schema) (hr : schema.record contract = .ok record)
    (hd : record.function? function = some declaration) (named : function ≠ readAuthName)
    (linked : c.code.link c.abi c.header = .ok code) :
    (∃ f, schema.check record declaration = .ok f ∧ f.Executed schema record declaration c code) ∧
      Stmt.ChangesOnePart ∧ Scope.Resolves := by
  refine ⟨?_, Stmt.changesOnePart, Scope.resolves⟩
  obtain ⟨f, checked, same, -⟩ := Program.function_of_compile compiled hs hr hd named
  obtain ⟨labels, holds, -⟩ := exists_linkage_of_link linked
  have happens : ∀ around (m : Machine), m.place = f.guard.size →
      (m.memory.world around).Before m.computed → ∀ fuel, Happens code around m.stack id m.computed m
        code.size fuel (declaration.exec schema record around fuel m.memory) := by
    intro around m here early fuel
    rw [same, f.code_eq] at holds
    obtain ⟨-, body⟩ := Linkage.holds_append.mp holds
    rw [Nat.zero_add, ← here] at body
    exact f.happens_body checked body (.memory early)
  refine ⟨f, checked, {
    code_eq := same.trans f.code_eq
    happens
    fails := fun around m here early =>
      Happens.fails_iff (happens around m here early) fun fuel =>
        declaration.exec_ne_next schema record around fuel _
    starts := fun fingerprint accepted early found =>
      (Inputs.read_of_ofCall accepted).world_before early found _
    statement := fun typed parts => ?_
    parameters := declaration.separate_scope schema record }⟩
  have is := Stmt.is_typed _ typed
  refine ⟨is.after, fun here mirrors => ?_⟩
  rw [parts] at holds
  obtain ⟨-, rest⟩ := Linkage.holds_append.mp holds
  obtain ⟨own, -⟩ := Linkage.holds_append.mp rest
  rw [Nat.zero_add, ← here] at own
  rw [← here]
  exact is.does _ _ own mirrors

/-- A function that raises a member of some of the structs in a list. -/
def raiseSource : String :=
  "contract R \x7b os: \x7b v: u32; w: string; \x7d[]; @call raise(k: u32): u32 \x7b let i: u32 = 0; " ++
  "while (i < k) \x7b this.os[i].v += k; i += 1; \x7d if (i == k) return i; \x7d \x7d"

/-- A receiver with two numbers in the structs of its list. -/
def raiseReceiver (a b : Int) : Datum :=
  .record [("os", .list
    [.record [("v", .integer a), ("w", .text "x")], .record [("v", .integer b), ("w", .text "y")]])]

def raiseStart : Machine := .start (raiseReceiver 1 7) [.integer 2, .null]

def Outcome.hasRaised : Outcome → Bool
  | .left (.value (.integer 2)) ⟨_, .record [("os", .list [.record [("v", .integer 3), ("w", .text "x")],
      .record [("v", .integer 9), ("w", .text "y")]])], _⟩ => true
  | _ => false

theorem Outcome.exists_of_hasRaised {o : Outcome} (h : o.hasRaised = true) :
    ∃ locals computed, o = .left (.value (.integer 2)) ⟨locals, raiseReceiver 3 9, computed⟩ := by
  unfold hasRaised at h
  split at h
  next locals computed => exact ⟨locals, computed, rfl⟩
  next => cases h

theorem raise_is_executed : ∃ program schema record declaration c code k m m',
    Program.read raiseSource = .ok program ∧ Schema.ofProgram program = .ok schema ∧
    schema.record "R" = .ok record ∧ record.function? "raise" = some declaration ∧
    program.compile "R" "raise" = .ok c ∧ c.code.link c.abi c.header = .ok code ∧
    (∃ locals computed, declaration.exec schema record ⟨none, []⟩ 3 raiseStart.memory =
      .left (.value (.integer 2)) ⟨locals, raiseReceiver 3 9, computed⟩) ∧
    Reaches code ⟨none, []⟩ raiseStart k m ∧
    step code ⟨none, []⟩ m = some (.ok (some (.value (.integer 2))), m') ∧
    m'.stack = [] ∧ m'.receiver = raiseReceiver 3 9 := by
  have runs : (do
      let program ← (Program.read raiseSource).toOption
      let schema ← (Schema.ofProgram program).toOption
      let record ← (schema.record "R").toOption
      let declaration ← record.function? "raise"
      let c ← (program.compile "R" "raise").toOption
      let code ← (c.code.link c.abi c.header).toOption
      let f ← (schema.check record declaration).toOption
      return f.guard.size == 0 &&
        (declaration.exec schema record ⟨none, []⟩ 3 raiseStart.memory).hasRaised) = some true := by
    decide +kernel
  simp only [Option.bind_eq_bind, Option.bind_eq_some_iff, toOption_eq_some, Option.pure_def,
    Option.some.injEq, Bool.and_eq_true, beq_iff_eq] at runs
  obtain ⟨program, hp, schema, hs, record, hr, declaration, hd, c, hc, code, linked, f, checked, plain,
    raised⟩ := runs
  obtain ⟨locals, computed, exec⟩ := Outcome.exists_of_hasRaised raised
  obtain ⟨⟨f', checked', executed⟩, -⟩ := body_is_executed hc hs hr hd (by decide) linked
  cases checked.symm.trans checked'
  have early : (raiseStart.memory.world ⟨none, []⟩).Before raiseStart.computed :=
    ⟨List.forall_mem_nil _, by decide, by decide⟩
  have happens := executed.happens ⟨none, []⟩ raiseStart plain.symm early 3
  rw [exec] at happens
  obtain ⟨g, k, m, m', -, reached, left, stack, mirrors⟩ := happens
  exact ⟨program, schema, record, declaration, c, code, k, m, m', hp, hs, hr, hd, hc, linked,
    ⟨locals, computed, exec⟩, reached, left, stack, mirrors.receiver.symm⟩

end Covenant
