import Covenant.Policy
import Covenant.Schema
/-!
Directives and the policies they make. A function may be called as its own directive says, else as
that of its record says; the constructor always, anything else never. A record may be read as its
directives say, and by those whom its marked fields name.
-/

namespace Covenant

namespace Directive

/-- The directive of a name, of which there may be one at most. -/
def findOne (directives : List Directive) (name : String) :
    Except CompileError (Option Directive) :=
  match directives.filter fun d => d.name == name with
  | _ :: second :: _ => CompileError.throw (.repeatedDirective name) second.line
  | found => .ok found.head?

def ofRecord : List String := ["call", "read", "public", "private"]

def ofField : List String := ["delegate", "read"]

def has (directives : List Directive) (name : String) : Bool :=
  directives.any fun d => d.name == name

end Directive

namespace RecordSchema

/-- The field that holds the key of the record's delegate. -/
def delegateField (record : RecordSchema) : Except CompileError String :=
  match record.declaration.fields.filter fun f => Directive.has f.directives "delegate" with
  | [field] => .ok field.name
  | found => CompileError.throwGlobal (.delegateCount record.name found.length)

def checkRecordDirective (d : Directive) : Except CompileError Unit :=
  if d.name ∉ Directive.ofRecord then
    CompileError.throw (.recordDirective d.name) d.line
  else if (d.name = "public" ∨ d.name = "private") ∧ d.arguments ≠ [] then
    CompileError.throw (.recordDirectiveArguments d.name) d.line
  else .ok ()

def checkFieldDirective (field : String) (type : Option Ty) (d : Directive) :
    Except CompileError Unit :=
  if d.name ∉ Directive.ofField then
    CompileError.throw (.fieldDirective d.name) d.line
  else if d.arguments ≠ [] then
    CompileError.throw (.fieldDirectiveArguments d.name) d.line
  else if d.name = "delegate" ∧ type ≠ some .publicKey then
    CompileError.throw (.delegateType field) d.line
  else .ok ()

def checkFunctionDirective (isConstructor : Bool) (d : Directive) : Except CompileError Unit :=
  if d.name ≠ "call" then CompileError.throw (.functionDirective d.name) d.line
  else if isConstructor then CompileError.throw .constructorDirective d.line
  else .ok ()

/-- Requires known directives in their places. -/
def checkDirectives (record : RecordSchema) : Except CompileError Unit := do
  let declaration := record.declaration
  declaration.directives.forM checkRecordDirective
  if (← Directive.findOne declaration.directives "public").isSome then
    if (← Directive.findOne declaration.directives "private").isSome then
      CompileError.throw (.publicAndPrivate record.name) declaration.line
  declaration.fields.forM fun f =>
    f.directives.forM (checkFieldDirective f.name (record.type.field? f.name))
  declaration.functions.forM fun f =>
    f.directives.forM (checkFunctionDirective f.isConstructor)

end RecordSchema

namespace Schema

/-- The policy that an argument of a directive on a line stands for. -/
def policyOf (schema : Schema) (record : RecordSchema) (line : Nat) :
    DirectiveArgument → Except CompileError Policy
  | .key text =>
    match Key.ofLiteral text with
    | .ok key => .ok (.key key)
    | .error fault => CompileError.throw (.keyLiteral text fault) line
  | .path [name] =>
    match record.type.field? name with
    | none => CompileError.throw (.unknownField name) line
    | some .publicKey => .ok (.field name)
    | some (.reference contract) => do
      let referenced ← schema.record contract
      return .delegate name referenced.name (← referenced.delegateField)
    | some _ => CompileError.throw (.policyField name) line
  | .path names => CompileError.throw (.longPath names record.name) line

def policiesOf (schema : Schema) (record : RecordSchema) (d : Directive) :
    Except CompileError (List Policy) :=
  if d.arguments.isEmpty then .ok [.anyone] else d.arguments.mapM (schema.policyOf record d.line)

def callPolicy (schema : Schema) (record : RecordSchema) (function : FunctionDecl) :
    Except CompileError Policy := do
  if function.isConstructor then return .anyone
  let found ← match ← Directive.findOne function.directives "call" with
    | some d => pure (some d)
    | none => Directive.findOne record.declaration.directives "call"
  match found with
  | none => return .denied
  | some d => return .combine (← schema.policiesOf record d)

/-- The policies of the fields that are marked as readers. -/
def readerPolicies (schema : Schema) (record : RecordSchema) :
    Except CompileError (List Policy) :=
  (record.declaration.fields.filter fun f => Directive.has f.directives "read").mapM fun f =>
    schema.policyOf record f.line (.path [f.name])

def readPolicy (schema : Schema) (record : RecordSchema) : Except CompileError Policy := do
  let directives := record.declaration.directives
  let unconditional := match ← Directive.findOne directives "public" with
    | some _ => [Policy.anyone]
    | none => []
  let named ← match ← Directive.findOne directives "read" with
    | some d => schema.policiesOf record d
    | none => pure []
  let readers ← schema.readerPolicies record
  return .combine (unconditional ++ named ++ readers)

end Schema

end Covenant
