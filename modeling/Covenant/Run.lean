import Covenant.Code.Linking
import Covenant.Compile
import Covenant.Error
import Covenant.Inputs
import Covenant.Machine.Run
import Covenant.Syntax.Parser
import Covenant.Value.Encoding
/-!
Running a linked function on inputs: what it yields are the receiver afterwards, the result, and a
commitment to each field that the outcome depends on.
-/

namespace Covenant

structure Output where
  receiver : Option Value
  result : Option Value
  hashes : List Value.Words
  /-- whether this was the check of who may read, and the caller may -/
  readAuth : Bool
  steps : Nat

namespace LinkedFunction

/-- The records of one type by their ids, the last one of an id first. -/
def recordsById : List SuppliedRecord → Except Misuse (List (Bytes × Datum))
  | [] => .ok []
  | r :: rest => do
    let id ← Inputs.recordId r.value
    return (← recordsById rest) ++ [(id, (Value.struct r.value).toDatum)]

def recordsOf : List (String × List SuppliedRecord) →
    Except Misuse (List (String × List (Bytes × Datum)))
  | [] => .ok []
  | (name, records) :: rest => do
    let found ← recordsById records
    return (name, found) :: (← recordsOf rest)

/-- The machine at the start of a run: arguments are the first locals, the others are null. -/
def machine (f : LinkedFunction) (inputs : Inputs) : Machine :=
  let arguments := inputs.arguments.map Value.toDatum
  Machine.start ((inputs.receiver.map fun fields =>
      Datum.record (ofMembers (Value.fieldData fields))).getD .null)
    (arguments ++ List.replicate (f.header.locals - arguments.length) .null)

/-- The commitment to a field that the outcome depends on. -/
def commitField (abi : Abi) (salts : List Nat) (receiver : Option Value) (name : String) :
    Except Misuse Value.Words :=
  match abi.thisType, receiver with
  | some type, some (.struct fields) =>
    match type.fieldNames.findIdx? (· == name), fields.lookup name with
    | some index, some v =>
      match salts[index]? with
      | some salt => v.commitField abi.contract name salt
      | none => .error .position
    | _, _ => .error .member
  | _, _ => .error .property

def resultValue (abi : Abi) (departure : Machine.Departure) : Except Misuse (Option Value) :=
  match abi.returnType with
  | none => .ok none
  | some type =>
    let d := match departure with
      | .plain => .null
      | .value d => d
    return some (← Value.ofDatum type d)

def output (f : LinkedFunction) (inputs : Inputs) (departure : Machine.Departure) (m : Machine) :
    Except Misuse Output := do
  let receiver ← f.abi.thisType.mapM fun type =>
    Value.ofDatum type.toTy m.receiver
  let result ← resultValue f.abi departure
  let hashes ← f.abi.dependentNames.mapM (commitField f.abi inputs.salts receiver)
  let granted := match result with
    | some v => v.same (.scalar .boolean (.boolean true))
    | none => false
  return ⟨receiver, result, hashes, f.abi.isReadAuth && granted, m.steps⟩

def run (f : LinkedFunction) (inputs : Inputs) (limit : Nat) : Except Error Output :=
  if inputs.abi ≠ f.abi then
    .error (.otherInputs (inputs.abi.contract ++ "." ++ inputs.abi.function)
      (f.abi.contract ++ "." ++ f.abi.function))
  else
    match recordsOf inputs.others with
    | .error why => .error (.misuse why)
    | .ok records =>
      let ended := Machine.run f.code ⟨inputs.callerKey, records⟩ limit (f.machine inputs)
      match ended.outcome with
      | .error failure => .error (.execution failure)
      | .ok departure =>
        match f.output inputs departure ended.machine with
        | .ok output => .ok output
        | .error why => .error (.misuse why)

end LinkedFunction

/-- The program that a source text writes, and a function of it compiled. -/
def compileSource (source contract function : String) : Except Error Compiled :=
  match Program.read source with
  | .error fault => .error (.parse fault)
  | .ok program =>
    match program.compile contract function with
    | .error error => .error (.compile error)
    | .ok compiled => .ok compiled

def linkText (abi : Abi) (text : String) : Except Error LinkedFunction :=
  match abi.link text with
  | .error fault => .error (.link fault)
  | .ok f => .ok f

def linkSource (source contract function : String) : Except Error LinkedFunction := do
  let compiled ← compileSource source contract function
  linkText compiled.abi compiled.text

def readInputs (abi : Abi) (call : Call) : Except Error Inputs :=
  match Inputs.ofCall abi call with
  | .error fault => .error (.call fault)
  | .ok inputs => .ok inputs

end Covenant
