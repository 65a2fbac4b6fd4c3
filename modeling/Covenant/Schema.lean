import Covenant.CompileError
/-!
The declared records of a program with the types of their fields. Names of records and of members
are unique.
-/

namespace Covenant

structure RecordSchema where
  declaration : RecordDecl
  fields : List (String × Ty)

namespace RecordSchema

def name (r : RecordSchema) : String := r.declaration.name

def type (r : RecordSchema) : RecordType := ⟨r.name, r.fields⟩

def function? (r : RecordSchema) (name : String) : Option FunctionDecl :=
  r.declaration.functions.find? fun f => f.name == name

def constructor? (r : RecordSchema) : Option FunctionDecl :=
  r.declaration.functions.find? fun f => f.isConstructor

end RecordSchema

abbrev Schema := List RecordSchema

/-- The words for primitive types: their names, and one more for double precision numbers. -/
def Primitive.ofWord? (word : String) : Option Primitive :=
  if word = "number" then some .f64 else Primitive.ofName? word

namespace TypeExpr

mutual
/-- The type that is written, given the names of all records. Faults of an object type are on the
given line, which is that of its declaration. -/
def resolve (records : List String) (line : Nat) : TypeExpr → Except CompileError Ty
  | .named name ownLine =>
    match Primitive.ofWord? name with
    | some p => .ok (.primitive p)
    | none =>
      if name = "PublicKey" then .ok .publicKey
      else if records.contains name then .ok (.reference name)
      else CompileError.throw (.unknownType name) (if ownLine = 0 then line else ownLine)
  | .array element => return .array (← element.resolve records line)
  | .object fields => do
    if (fields.map (·.1)).Nodup then return .struct "" (← resolveFields records line fields)
    else CompileError.throw .duplicateObjectField line

def resolveFields (records : List String) (line : Nat) :
    List (String × TypeExpr) → Except CompileError (List (String × Ty))
  | [] => return []
  | (name, t) :: rest => do
    let t ← t.resolve records line
    return (name, t) :: (← resolveFields records line rest)
end

end TypeExpr

namespace Schema

def checkRecords (seen : List String) : Program → Except CompileError Unit
  | [] => return ()
  | record :: rest =>
    if seen.contains record.name then
      CompileError.throw (.duplicateRecord record.name) record.line
    else checkRecords (record.name :: seen) rest

def checkFields (record : String) (seen : List String) :
    List FieldDecl → Except CompileError (List String)
  | [] => return seen
  | field :: rest =>
    if seen.contains field.name then
      CompileError.throw (.duplicateMember field.name record) field.line
    else checkFields record (field.name :: seen) rest

/-- Requires that functions have names of their own and that one at most is the constructor. -/
def checkFunctions (record : String) (seen : List String) (hasConstructor : Bool) :
    List FunctionDecl → Except CompileError Unit
  | [] => return ()
  | function :: rest =>
    if function.isConstructor then
      if hasConstructor then CompileError.throw (.duplicateConstructor record) function.line
      else checkFunctions record seen true rest
    else if seen.contains function.name then
      CompileError.throw (.duplicateMember function.name record) function.line
    else checkFunctions record (function.name :: seen) hasConstructor rest

def resolveField (records : List String) (field : FieldDecl) :
    Except CompileError (String × Ty) := do
  return (field.name, ← field.type.resolve records field.line)

def ofRecord (records : List String) (record : RecordDecl) : Except CompileError RecordSchema := do
  let seen ← checkFields record.name [] record.fields
  checkFunctions record.name seen false record.functions
  return ⟨record, ← record.fields.mapM (resolveField records)⟩

def ofProgram (program : Program) : Except CompileError Schema := do
  checkRecords [] program
  program.mapM (ofRecord (program.map (·.name)))

def find? (schema : Schema) (name : String) : Option RecordSchema :=
  List.find? (fun r => r.name == name) schema

def record (schema : Schema) (name : String) : Except CompileError RecordSchema :=
  match schema.find? name with
  | some r => .ok r
  | none => CompileError.throwGlobal (.unknownContract name)

def names (schema : Schema) : List String := schema.map (·.name)

def resolve (schema : Schema) (line : Nat) (t : TypeExpr) : Except CompileError Ty :=
  t.resolve schema.names line

end Schema

end Covenant
