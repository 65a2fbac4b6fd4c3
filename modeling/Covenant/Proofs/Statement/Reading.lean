import Covenant.Proofs.Term.Value
/-!
Statements read directly, over the syntax tree.

* `Datum.replaced`: a value with the part at the end of a path replaced;
* `Scope.bind`, `Stmt.after`: what names mean after a statement;
* `Stmt.exec`: what a statement does to the locals and the receiver. A loop is given fuel, so that what has
  not ended with it is told apart from what ends;
* `FunctionDecl.exec`: what the body of a function comes to.
-/

namespace Covenant

open Evaluation (lift)
open Machine (slotValue Departure)

/-! ## Paths into data -/

/-- A step from a value to one of its parts, places in arrays being given by `α`. -/
inductive Step (α : Type)
  | member (name : String)
  | element (index : α)

namespace Step

/-- Where a value is put that replaces the part. -/
def place {α : Type} : Step α → Place
  | .member name => .field name
  | .element _ => .element

/-- A step whose place has been evaluated. -/
def value (s : Scope) (w : World) : Step Expr → Evaluation (Step Datum)
  | .member name => pure (.member name)
  | .element place => do return .element (← place.value s w (some .u32))

end Step

namespace Datum

/-- What is made of a value that is stored. An absent key is not. -/
def kept (place : Place) (value : Datum) (r : Except Failure Datum) : Except Failure Datum :=
  match value with
  | .null => .error (.absentKey place)
  | _ => r

def part (d : Datum) : Step Datum → Except Failure Datum
  | .member name => Failure.lift (d.member name)
  | .element index => d.element index

def withPart (d : Datum) (step : Step Datum) (value : Datum) : Except Failure Datum :=
  kept step.place value (match step with
    | .member name => Failure.lift (d.withMember name value)
    | .element index => d.withElement index value)

def withField (d : Datum) (name : String) (value : Datum) : Except Failure Datum :=
  kept (.field name) value (match d with
    | .record fields => .ok (.record (setField name value fields))
    | _ => .error (.misuse .kind))

def extended (d value : Datum) : Except Failure Datum :=
  kept .element value (Failure.lift (d.appended value))

/-- The part at the end of a path. -/
def partAlong (whole : Except Failure Datum) : List (Step Datum) → Except Failure Datum
  | [] => whole
  | step :: rest => partAlong (whole >>= fun d => d.part step) rest

/-- The whole with the part at the end of a path replaced. What is replaced itself need not be there. -/
def replaced (value : Datum) (whole : Except Failure Datum) : List (Step Datum) → Except Failure Datum
  | [] => .ok value
  | step :: rest => do
    let d ← whole
    d.withPart step (← replaced value (d.part step) rest)

end Datum

/-! ## Targets -/

namespace Expr

/-- Where the path of a target begins: a declared name, or a field of the receiver. -/
def root (s : Scope) : Expr → Root
  | .member (.this _) word _ => .field word
  | .member object _ _ | .index object _ _ => root s object
  | .name word _ => .slot ((s.lookup? word).getD 0)
  | _ => .slot 0

/-- The path of a target from there. -/
def route : Expr → List (Step Expr)
  | .member (.this _) _ _ => []
  | .member object word _ => route object ++ [.member word]
  | .index object place _ => route object ++ [.element place]
  | _ => []

/-- The path that a route is, the places in arrays evaluated one after another. Each part but the last one
has to be there. -/
def located (s : Scope) (w : World) (whole : Except Failure Datum) :
    List (Step Expr) → Evaluation (List (Step Datum))
  | [] => pure []
  | step :: rest => do
    let d ← lift whole
    let step ← step.value s w
    return step :: (← located s w (d.part step) rest)

end Expr

namespace World

def root (w : World) : Root → Except Failure Datum
  | .slot index => slotValue w.locals index
  | .field name => Failure.lift (w.receiver.member name)

end World

/-! ## What statements work on -/

/-- The locals, by the order of their declarations, the receiver, and how many operations of arithmetic
there have been. -/
structure Memory where
  locals : List Datum
  receiver : Datum
  computed : Nat

inductive Outcome
  | next (m : Memory)
  | left (departure : Departure) (m : Memory)
  | failed (failure : Failure)
  /-- it has not ended with its fuel -/
  | running

def Outcome.andThen : Outcome → (Memory → Outcome) → Outcome
  | .next m, rest => rest m
  | o, _ => o

namespace Memory

def world (around : Surroundings) (m : Memory) : World := ⟨around, m.locals, m.receiver⟩

/-- Goes on with the value of an evaluation. -/
def evaluate {α : Type} (around : Surroundings) (m : Memory) (v : World → Evaluation α)
    (next : α → Memory → Outcome) : Outcome :=
  match (v (m.world around)).run m.computed with
  | .ok (a, computed) => next a { m with computed }
  | .error failure => .failed failure

def store (m : Memory) (value : Datum) : Root → Outcome
  | .slot index =>
    if index < m.locals.length then .next { m with locals := m.locals.set index value }
    else .failed (.misuse .position)
  | .field name =>
    match m.receiver.withField name value with
    | .ok receiver => .next { m with receiver }
    | .error failure => .failed failure

def put (around : Surroundings) (m : Memory) (root : Root) (path : List (Step Datum)) (value : Datum) :
    Outcome :=
  match Datum.replaced value ((m.world around).root root) path with
  | .ok whole => m.store whole root
  | .error failure => .failed failure

/-- Assigns to a target what is made of its old value, which need not be there. -/
def assign (around : Surroundings) (s : Scope) (m : Memory) (target : Expr)
    (new : World → Evaluation Datum → Evaluation Datum) : Outcome :=
  m.evaluate around (fun w => do
    let whole := w.root (target.root s)
    let path ← Expr.located s w whole target.route
    return (path, ← new w (lift (Datum.partAlong whole path)))) fun a m =>
      m.put around (target.root s) a.1 a.2

end Memory

/-! ## Names -/

namespace Scope

/-- Declares a name in the innermost block: it stands for the next slot. -/
def bind (s : Scope) (name : String) (type : Ty) : Scope :=
  { s with
    slots := s.slots ++ [type]
    blocks := ((name, s.slots.length) :: s.blocks.headD []) :: s.blocks.tail }

theorem lookup?_bind (s : Scope) (name : String) (type : Ty) :
    (s.bind name type).lookup? name = some s.slots.length := by
  simp [bind, lookup?]

/-- A declaration hides no other name. -/
theorem lookup?_bind_of_ne {s : Scope} {name other : String} (ne : other ≠ name) (type : Ty) :
    (s.bind name type).lookup? other = s.lookup? other := by
  have same : (other == name) = false := beq_false_of_ne ne
  unfold bind lookup?
  cases s.blocks with
  | nil => simp [List.lookup_cons, same]
  | cons block rest => simp [List.findSome?_cons, List.lookup_cons, same]

theorem lookup?_inner (s : Scope) (name : String) : s.inner.lookup? name = s.lookup? name := by
  simp [inner, lookup?, List.findSome?_cons]

end Scope

namespace Stmt

/-- The type of a declared name. -/
def declared (s : Scope) (type : Option TypeExpr) (value : Expr) (line : Nat) : Ty :=
  (match type with
    | some written => (s.schema.resolve line written).toOption
    | none => value.typeOf s none).getD .publicKey

mutual
/-- What names mean after a statement. Those that a block declares mean nothing after it. -/
def after (s : Scope) : Stmt → Scope
  | .block statements _ => { afterAll s.inner statements with blocks := s.blocks }
  | .declare name type value line => s.bind name (declared s type value line)
  | .ifThen _ yes _ => after s yes
  | .ifElse _ yes no _ => after (after s yes) no
  | .loop _ body _ => after s body
  | .assign _ _ _ _ | .leave _ _ | .evaluate _ _ => s

def afterAll (s : Scope) : List Stmt → Scope
  | [] => s
  | first :: rest => afterAll (after s first) rest
end

end Stmt

/-! ## Statements -/

def AssignOp.operator? : AssignOp → Option BinaryOp
  | .set => none
  | .add => some .add
  | .sub => some .sub

namespace Expr

def test (s : Scope) (w : World) (condition : Expr) : Evaluation Datum := do
  return truth (condition.typeOf s (some .boolean)) (← condition.value s w (some .boolean))

/-- What an assignment makes of the old value. -/
def assigned (s : Scope) (type : Option Ty) (op : AssignOp) (value : Expr) (w : World)
    (old : Evaluation Datum) : Evaluation Datum :=
  match op.operator? with
  | none => value.value s w type
  | some op => do
    let a ← old
    let b ← value.value s w type
    applied op type a b

/-- What a push makes of the old array. -/
def pushed (s : Scope) (element : Option Ty) (item : Expr) (w : World) (old : Evaluation Datum) :
    Evaluation Datum := do
  let d ← old
  let value ← item.value s w element
  lift (d.extended value)

end Expr

inductive Effect
  | push (object item : Expr)
  | error (message : Expr)

def Expr.effect? : Expr → Option Effect
  | .method object word [item] _ => if word = "push" then some (.push object item) else none
  | .call word [message] _ => if word = "error" then some (.error message) else none
  | _ => none

/-- Repeats a body while a test of the memory goes on with true. -/
def Outcome.loop (test : Memory → (Datum → Memory → Outcome) → Outcome) (body : Memory → Outcome) :
    Nat → Memory → Outcome
  | 0, _ => .running
  | fuel + 1, m => test m fun d m =>
    if d.isTrue then (body m).andThen (Outcome.loop test body fuel) else .next m

namespace Stmt

mutual
/-- What a statement comes to, each loop in it going round `fuel` times at most. -/
def exec (around : Surroundings) (fuel : Nat) (s : Scope) : Stmt → Memory → Outcome
  | .block statements _, m => execAll around fuel s.inner statements m
  | .declare _ type value line, m =>
    m.evaluate around (fun w => value.value s w (type.map fun _ => declared s type value line))
      fun d m => m.store d (.slot s.slots.length)
  | .assign target op value _, m =>
    m.assign around s target (value.assigned s (target.typeOf s none) op)
  | .ifThen condition yes _, m => m.evaluate around (condition.test s) fun d m =>
    if d.isTrue then exec around fuel s yes m else .next m
  | .ifElse condition yes no _, m => m.evaluate around (condition.test s) fun d m =>
    if d.isTrue then exec around fuel s yes m else exec around fuel (after s yes) no m
  | .loop condition body _, m =>
    Outcome.loop (fun m => m.evaluate around (condition.test s)) (exec around fuel s body) fuel m
  | .leave none _, m => .left .plain m
  | .leave (some value) _, m =>
    m.evaluate around (fun w => value.value s w s.result) fun d m => .left (.value d) m
  | .evaluate value _, m =>
    match value.effect? with
    | some (.push object item) =>
      m.assign around s object (item.pushed s ((object.typeOf s none).bind Ty.element?))
    | some (.error message) =>
      m.evaluate around (fun w => message.value s w (some .string)) fun d _ => .failed (.aborted d.shown)
    | none => m.evaluate around (fun w => value.value s w none) fun _ m => .next m

def execAll (around : Surroundings) (fuel : Nat) (s : Scope) : List Stmt → Memory → Outcome
  | [], m => .next m
  | first :: rest, m =>
    (exec around fuel s first m).andThen (execAll around fuel (after s first) rest)
end

end Stmt

/-- What a function comes to that no statement has left: it leaves, or fails for want of a value. -/
def Outcome.unreturned (name : String) (result : Option Ty) (m : Memory) : Outcome :=
  match result with
  | none => .left .plain m
  | some _ => .failed (.aborted ("Function '" ++ name ++ "' did not return a value"))

namespace FunctionDecl

/-- What names mean where the body of a function starts: its parameters are the first slots. -/
def scope (schema : Schema) (record : RecordSchema) (f : FunctionDecl) : Scope :=
  f.parameters.foldl
    (fun s p => s.bind p.name ((schema.resolve p.line p.type).toOption.getD .publicKey))
    ⟨schema, record.type, f.result.bind fun type => (schema.resolve f.line type).toOption, [], [[]]⟩

def exec (schema : Schema) (record : RecordSchema) (around : Surroundings) (fuel : Nat) (f : FunctionDecl)
    (m : Memory) : Outcome :=
  let s := f.scope schema record
  (f.body.exec around fuel s m).andThen (Outcome.unreturned f.name s.result)

end FunctionDecl

end Covenant
