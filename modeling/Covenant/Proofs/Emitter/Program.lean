import Covenant.Proofs.Emitter.Basic
/-!
Compiling in one pass: statements, functions and programs. Each expression of a function has a position of its own, so
what is inferred of one is not known of another.

* `Emission.statement`: the code of a statement;
* `Emission.policy`: the code that checks whether the caller satisfies a policy;
* `Emission.function`: the code of a function, which checks its caller first;
* `Program.emit`: what a program is compiled to.
-/

namespace Covenant

/-- After a block its names mean nothing. -/
def Scope.outer (s : Scope) : Scope := { s with blocks := s.blocks.tail }

namespace Emitter

def within (σ : Emitter) (scope : Scope) : Emitter := { σ with scope := scope }

/-- A statement that leaves the function is reached. In a branch, it is not known for what follows the branch whether
the function has been left. -/
def departing (σ : Emitter) : Emitter := { σ with leftEarly := σ.leftEarly || σ.branches != 0 }

end Emitter

namespace Emission

/-! ## Statements -/

def declare (name : String) (type : Ty) (line : Nat) : Emission Unit := do
  let (slot, scope) ← (← get).scope.declare name type line
  modify fun σ => σ.within scope
  emit (.storeLocal slot)

/-- The operator of a compound assignment on values of a type. -/
def combine (op : AssignOp) (arith : Arith) (type : Ty) (line : Nat) : Emission Unit :=
  if op = .add && type = .string then emit .concat
  else match type with
    | .primitive p =>
      if p.isNumeric then emit (.arith arith p) else fail (.undefinedOperator op.text type) line
    | _ => fail (.undefinedOperator op.text type) line

/-- What an assignment stores. A compound one reads its target first. -/
def assigned (target : Expr) (op : AssignOp) (given : Expr) (line : Nat)
    (ofTarget ofGiven : Option Ty → Emission (Option Ty)) (type : Ty) : Emission Unit :=
  let ofOperand := valueOf type given.line line (ofGiven (some type))
  let compound (arith : Arith) := do
    let _ ← value target.line (ofTarget (some type))
    ofOperand
    combine op arith type line
  match op with
  | .set => ofOperand
  | .add => compound .add
  | .sub => compound .sub

def leave (given : Option Expr) (line : Nat) (ofGiven : Expr → Option Ty → Emission (Option Ty)) : Emission Unit := do
  modify Emitter.departing
  match (← get).scope.result, given with
  | none, none => emit .leave
  | none, some _ => fail .noResultType line
  | some type, none => fail (.missingResult type) line
  | some type, some e =>
    valueOf type e.line line (ofGiven e (some type))
    emit .leaveValue

mutual
def statement (position : Position) : Stmt → Emission Unit
  | .block body _ => do
    modify fun σ => σ.within σ.scope.inner
    statements position 0 body
    modify fun σ => σ.within σ.scope.outer
  | .declare name (some written) given line => do
    let type ← (← get).scope.schema.resolve line written
    valueOf type given.line line (expr (position ++ [0]) (some type) given)
    declare name type line
  | .declare name none given line => do
    let type ← value given.line (expr (position ++ [0]) none given)
    declare name type line
  | .assign target op given line =>
    store (position ++ [0]) line (assigned target op given line (fun type => expr (position ++ [0]) type target)
      fun type => expr (position ++ [1]) type given) target
  | .ifThen test yes line => do
    let otherwise ← newLabel
    condition test.line line (expr (position ++ [0]) (some .boolean) test)
    emit (.jumpIfFalse otherwise)
    branch (statement (position ++ [1]) yes)
    mark otherwise
  | .ifElse test yes no line => do
    let otherwise ← newLabel
    condition test.line line (expr (position ++ [0]) (some .boolean) test)
    emit (.jumpIfFalse otherwise)
    branch (statement (position ++ [1]) yes)
    let last ← newLabel
    emit (.jump last)
    mark otherwise
    branch (statement (position ++ [2]) no)
    mark last
  | .loop test body line => do
    let top ← newLabel
    let last ← newLabel
    mark top
    condition test.line line (expr (position ++ [0]) (some .boolean) test)
    emit (.jumpIfFalse last)
    branch (statement (position ++ [1]) body)
    emit (.jump top)
    mark last
  | .leave given line => leave given line fun e type => expr (position ++ [0]) type e
  | .evaluate given _ => do
    match ← expr (position ++ [0]) none given with
    | some _ => emit .drop
    | none => pure ()

/-- The code of the statements of a block, which are numbered from `i`. -/
def statements (position : Position) (i : Nat) : List Stmt → Emission Unit
  | [] => pure ()
  | first :: rest => do
    statement (position ++ [i]) first
    statements position (i + 1) rest
end

theorem statements_cons (position : Position) (i : Nat) (first : Stmt) (rest : List Stmt) :
    statements position i (first :: rest) = (do
      statement (position ++ [i]) first
      statements position (i + 1) rest) := by
  rw [statements]

/-! ## Policies and functions -/

def truth (b : Bool) : Emission Unit := emit (.push (.primitive .boolean) (.boolean b))

mutual
/-- Leaves on the stack whether the caller satisfies a policy. -/
def policy : Policy → Emission Unit
  | .anyone => truth true
  | .denied => truth false
  | .field name => do
    emit (.loadContext "publicKey")
    emit (.loadThis name)
    emit .keyMatch
  | .delegate holder contract delegateField => do
    follow holder
    let unset ← newLabel
    let last ← newLabel
    emit (.loadContext "publicKey")
    emit (.loadThis holder)
    emit .dup
    emit .truthy
    emit (.jumpIfFalse unset)
    emit (.deref contract)
    emit (.getField delegateField)
    emit .keyMatch
    emit (.jump last)
    mark unset
    emit .drop
    emit .drop
    truth false
    mark last
  | .key key => do
    emit (.loadContext "publicKey")
    emit (.push .key (.text key.toHex))
    emit .keyMatch
  | .anyOf members => do
    let satisfied ← newLabel
    let last ← newLabel
    policies satisfied members
    truth false
    emit (.jump last)
    mark satisfied
    truth true
    mark last

/-- The members of a policy one after the other: the first one that is satisfied ends the check. -/
def policies (satisfied : String) : List Policy → Emission Unit
  | [] => pure ()
  | first :: rest => do
    branch (policy first)
    emit (.jumpIfTrue satisfied)
    policies satisfied rest
end

theorem policies_cons (satisfied : String) (first : Policy) (rest : List Policy) :
    policies satisfied (first :: rest) = (do
      branch (policy first)
      emit (.jumpIfTrue satisfied)
      policies satisfied rest) := by
  rw [policies]

/-- The code before the body of a function: it goes on only if the caller may call the function. -/
def guard (isConstructor : Bool) (p : Policy) : Emission Unit :=
  if isConstructor || p.isAnyone then pure ()
  else do
    let authorized ← newLabel
    policy p
    emit (.jumpIfTrue authorized)
    emit .abortUnauthorized
    mark authorized

/-- The code after the body of a function, which is reached when no statement has left the function. -/
def ending (name : String) : Option Ty → Emission Unit
  | none => emit .leave
  | some _ => do
    emit (.push (.primitive .string) (.text ("Function '" ++ name ++ "' did not return a value")))
    emit .abort

def readAuth (p : Policy) : Emission Unit := do
  policy p
  emit .leaveValue

/-- The code of a function, for callers that satisfy a policy. -/
def function (declaration : FunctionDecl) (p : Policy) : Emission Unit := do
  let result := (← get).scope.result
  guard declaration.isConstructor p
  statement [] declaration.body
  ending declaration.name result

end Emission

namespace Schema

def emitReadAuth (schema : Schema) (record : RecordSchema) (readPolicy : Policy) : Except CompileError Compiled := do
  let scope : Scope := ⟨schema, record.type, some .boolean, [], [[]]⟩
  let (_, σ) ← (Emission.readAuth readPolicy).run (.start scope)
  return ⟨⟨record.name, readAuthName, 0, σ.scope.slots.length, true⟩, σ.code,
    schema.describe record readAuthName [] (some .boolean) σ.code σ.followed .anyone readPolicy⟩

def emitFunction (schema : Schema) (record : RecordSchema) (readPolicy : Policy) (function : FunctionDecl) :
    Except CompileError Compiled := do
  let parameters ← function.parameters.mapM schema.resolveParameter
  let result ← function.result.mapM (schema.resolve function.line)
  let policy ← schema.callPolicy record function
  let scope ← declareAll ⟨schema, record.type, result, [], [[]]⟩ parameters
  let (_, σ) ← (Emission.function function policy).run (.start scope)
  return ⟨⟨record.name, function.name, parameters.length, σ.scope.slots.length, result.isSome⟩, σ.code,
    schema.describe record function.name parameters result σ.code σ.followed policy readPolicy⟩

end Schema

/-- Compiles a function of a record by name, in one pass. -/
def Program.emit (program : Program) (contract function : String) : Except CompileError Compiled := do
  let schema ← Schema.ofProgram program
  let record ← schema.record contract
  record.checkDirectives
  let readPolicy ← schema.readPolicy record
  if function = readAuthName then schema.emitReadAuth record readPolicy
  else match record.function? function with
    | some declaration => schema.emitFunction record readPolicy declaration
    | none => CompileError.throwGlobal (.unknownFunction function)

end Covenant
