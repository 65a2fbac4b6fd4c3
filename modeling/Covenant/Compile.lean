import Covenant.Abi
import Covenant.Code.Emission
import Covenant.Code.Text
import Covenant.Code.Uses
import Covenant.Directives
import Covenant.Term.Typing
/-!
Compiling one function of a record, or the check of who may read it. The code of a function first
checks that the caller may call it.
-/

namespace Covenant

structure Compiled where
  header : Header
  code : Code
  abi : Abi

namespace Compiled

def text (c : Compiled) : String := Code.write c.header c.code

end Compiled

structure CheckedFunction where
  name : String
  isConstructor : Bool
  parameters : List (String × Ty)
  result : Option Ty
  policy : Policy
  body : Action
  /-- the types of all slots, those of the parameters first -/
  slots : List Ty

namespace CheckedFunction

/-- The code before the body: it goes on only if the caller may call the function. -/
def guard (f : CheckedFunction) : Code :=
  if f.isConstructor || f.policy.isAnyone then []
  else f.policy.code 1 ++
    [.op (.jumpIfTrue (labelName 0)), .op .abortUnauthorized, .label (labelName 0)]

def guardLabels (f : CheckedFunction) : Nat :=
  if f.isConstructor || f.policy.isAnyone then 0 else 1 + f.policy.labels

/-- The code after the body, which is reached when no statement has left the function. -/
def ending (f : CheckedFunction) : Code :=
  match f.result with
  | none => [.op .leave]
  | some _ =>
    [.op (.push (.primitive .string)
      (.text ("Function '" ++ f.name ++ "' did not return a value"))), .op .abort]

def code (f : CheckedFunction) : Code := f.guard ++ f.body.code f.guardLabels ++ f.ending

def followed (f : CheckedFunction) : List String :=
  firstUses ((if f.isConstructor then [] else f.policy.followed) ++ f.body.followed)

end CheckedFunction

namespace Schema

/-- Adds the parameters as the first slots. -/
def declareAll (s : Scope) : List (String × Ty) → Except CompileError Scope
  | [] => return s
  | (name, type) :: rest => do
    let (_, s) ← s.declare name type 0
    declareAll s rest

def resolveParameter (schema : Schema) (p : Parameter) : Except CompileError (String × Ty) := do
  return (p.name, ← schema.resolve p.line p.type)

def check (schema : Schema) (record : RecordSchema) (function : FunctionDecl) :
    Except CompileError CheckedFunction := do
  let parameters ← function.parameters.mapM schema.resolveParameter
  let result ← function.result.mapM (schema.resolve function.line)
  let policy ← schema.callPolicy record function
  let scope ← declareAll ⟨schema, record.type, result, [], [[]]⟩ parameters
  let (body, scope) ← function.body.typed scope
  return ⟨function.name, function.isConstructor, parameters, result, policy, body, scope.slots⟩

def describe (schema : Schema) (record : RecordSchema) (function : String)
    (parameters : List (String × Ty)) (result : Option Ty) (code : Code) (followed : List String)
    (callPolicy readPolicy : Policy) : Abi where
  contract := record.name
  function := function
  thisType := some record.type
  parameterNames := parameters.map (·.1)
  parameterTypes := parameters.map (·.2)
  returnType := result
  otherTypes := code.lookedUp.filterMap fun name => (schema.find? name).map RecordSchema.type
  dependentFields := (code.dependentFields record.type).filterMap fun name =>
    (record.type.field? name).map fun t => (name, t)
  requiredReferences := followed
  callPolicy := callPolicy
  readPolicy := readPolicy

def compileReadAuth (schema : Schema) (record : RecordSchema) (readPolicy : Policy) : Compiled :=
  let code := readPolicy.code 0 ++ [.op .leaveValue]
  ⟨⟨record.name, readAuthName, 0, 0, true⟩, code,
    schema.describe record readAuthName [] (some .boolean) code readPolicy.followed .anyone
      readPolicy⟩

def compileFunction (schema : Schema) (record : RecordSchema) (readPolicy : Policy)
    (function : FunctionDecl) : Except CompileError Compiled := do
  let f ← schema.check record function
  return ⟨⟨record.name, f.name, f.parameters.length, f.slots.length, f.result.isSome⟩, f.code,
    schema.describe record f.name f.parameters f.result f.code f.followed f.policy readPolicy⟩

end Schema

namespace Program

def compile (program : Program) (contract function : String) : Except CompileError Compiled := do
  let schema ← Schema.ofProgram program
  let record ← schema.record contract
  record.checkDirectives
  let readPolicy ← schema.readPolicy record
  if function = readAuthName then return schema.compileReadAuth record readPolicy
  else match record.function? function with
    | some declaration => schema.compileFunction record readPolicy declaration
    | none => CompileError.throwGlobal (.unknownFunction function)

end Program

end Covenant
