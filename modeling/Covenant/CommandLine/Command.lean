import Covenant.CommandLine.Arguments
import Covenant.CommandLine.Files
import Covenant.Report
/-!
The commands: `compile` writes the code and the description of a function, `run` runs it on the data
of a call and reports. Progress is logged when asked for.
-/

namespace Covenant.CommandLine

structure Outcome where
  exitCode : Nat
  output : String
  errors : String
  /-- the files to be written first, in order -/
  files : List (String × String)
  /-- what goes wrong once they are written -/
  misuse : Option Misuse

/-- How a command fails: with a message and an exit code, or in a way that it does not foresee. -/
inductive Trouble
  | message (exitCode : Nat) (text : String)
  | unforeseen (e : Error)

/-- What a command has written to the log so far, and how it goes on. -/
abbrev Progress := ExceptT Trouble (StateM (List String))

abbrev FileReader := String → Except FileFault String

def exitCode : Error → Nat
  | .call _ => 2
  | .execution _ => 3
  | _ => 1

def troubleOf (e : Error) : Trouble :=
  match e.code? with
  | some code => .message (exitCode e) ("[" ++ code.name ++ "] " ++ e.message)
  | none => .unforeseen e

namespace Command

def log (part text : String) : Progress Unit :=
  modify fun lines => lines ++ ["DEBUG contractvm.kernel." ++ part ++ ": " ++ text ++ "\n"]

def stop {α : Type} (exitCode : Nat) (text : String) : Progress α :=
  throw (.message exitCode text)

def misused {α : Type} (why : Misuse) : Progress α := throw (.unforeseen (.misuse why))

def orStop {α : Type} : Except Error α → Progress α
  | .ok a => pure a
  | .error e => throw (troubleOf e)

/-- Reads a file as text with one kind of line end; `what` names it in the message. -/
def readText (files : FileReader) (what path : String) : Progress String :=
  match files (tidy path) with
  | .ok text => pure (String.ofList (Text.unifyLineEnds text.toList))
  | .error .badName => misused .domain
  | .error fault =>
    stop 2 ("Cannot read " ++ what ++ tidy path ++ ": " ++ fault.message (tidy path))

def readJson (files : FileReader) (c : Command) (option : OptionName) (what : String)
    (default : Datum) : Progress Datum :=
  match c.value? option with
  | none => pure default
  | some none => misused .kind
  | some (some path) => do
    let text ← readText files (what ++ " from ") path
    match Json.readWithin Datum.nestingLimit text.toList with
    | .ok d => pure d
    | .error .tooLong | .error .tooDeep => misused .domain
    | .error (.at expected position) =>
      stop 2 ("Cannot read " ++ what ++ " from " ++ tidy path ++ ": " ++
        Json.message text.toList expected position)

def shownNames (names : List String) : String := (Datum.list (names.map .text)).quoted

def subject (abi : Abi) : String := abi.contract ++ "." ++ abi.function

/-- Compiles the function that a command names. Without a name no contract can be looked up, and no
function is found. -/
def compileNamed (c : Command) (program : Program) : Except Error Compiled :=
  let result := match c.contract with
    | some contract => (program.compile contract (c.function.getD (shownNames []))).map some
    | none => (Schema.ofProgram program).map fun _ => none
  match result with
  | .ok (some compiled) => .ok compiled
  | .ok none => .error (.misuse .kind)
  | .error e => .error (.compile e)

def prepare (files : FileReader) (c : Command) : Progress (Compiled × LinkedFunction) := do
  let source ← readText files "source " c.source
  let program ← orStop (match Program.read source with
    | .ok p => .ok p
    | .error fault => .error (.parse fault))
  log "parser" ("parsed " ++ Decimal.natural program.length ++ " record declaration(s)")
  let compiled ← orStop (c.compileNamed program)
  log "compiler" ("compiled " ++ subject compiled.abi ++ ": " ++
    Decimal.natural compiled.code.length ++ " instruction(s), dependent fields " ++
    shownNames compiled.abi.dependentNames)
  let linked ← orStop (linkText compiled.abi compiled.text)
  log "prover" ("linked " ++ subject linked.abi ++ " (" ++ linked.fingerprint ++ ")")
  return (compiled, linked)

/-- A text with the path that an option gives it, if the option is given. -/
def written (c : Command) (option : OptionName) (text : String) (why : Misuse) :
    Except Misuse (List (String × String)) :=
  match c.value? option with
  | none => .ok []
  | some none => .error why
  | some (some path) => .ok [(tidy path, text)]

/-- Writes the code and the description where asked for, and shows the description. Where the
description cannot go is known only after the code is written. -/
def compile (files : FileReader) (c : Command) : Progress Outcome := do
  let (compiled, _) ← c.prepare files
  let abi := Json.write compiled.abi.toDatum
  let output := if c.quiet then "" else abi ++ "\n"
  match c.written .codeOut compiled.text .property, c.written .abiOut (abi ++ "\n") .kind with
  | .error why, _ => misused why
  | .ok code, .error why => return ⟨0, output, "", code, some why⟩
  | .ok code, .ok description => return ⟨0, output, "", code ++ description, none⟩

mutual
/-- The datum with doubles that are not finite replaced by null. -/
def finite : Datum → Datum
  | .float x => if x.isNan || x.isInfinite then .null else .float x
  | .list items => .list (finiteItems items)
  | .record fields => .record (finiteFields fields)
  | d => d

def finiteItems : List Datum → List Datum
  | [] => []
  | d :: rest => finite d :: finiteItems rest

def finiteFields : List (String × Datum) → List (String × Datum)
  | [] => []
  | (name, d) :: rest => (name, finite d) :: finiteFields rest
end

def readCall (files : FileReader) (c : Command) : Progress Call := do
  let callerKey ← c.readJson files .callerKey "caller key" .null
  let salts ← c.readJson files .salts "salts" .null
  let receiver ← c.readJson files .receiver "receiver" .null
  let arguments ← c.readJson files .arguments "arguments" (.list [])
  let others ← c.readJson files .others "other records" .null
  return ⟨callerKey, salts, receiver, arguments, others⟩

def sortedNames (names : List String) : List String := names.mergeSort fun a b => decide (a ≤ b)

def run (files : FileReader) (c : Command) : Progress Outcome := do
  let (_, linked) ← c.prepare files
  let call ← c.readCall files
  let inputs ← orStop (readInputs linked.abi call)
  log "inputs" ("built inputs for " ++ subject linked.abi ++ ": caller=" ++
    (if inputs.callerKey.isSome then "set" else "none") ++ ", " ++
    Decimal.natural inputs.arguments.length ++ " arg(s), other records " ++
    shownNames (sortedNames (inputs.others.map (·.1))))
  let output ← orStop (match c.limit? with
    | some limit => linked.run inputs limit
    | none => .error .invalid)
  log "prover" ("ran " ++ subject linked.abi ++ " in " ++
    Decimal.natural output.steps ++ " step(s)")
  let report ← orStop (match Report.ofOutput linked output with
    | .ok report => .ok report
    | .error why => .error (.misuse why))
  return ⟨0, if c.quiet then "" else Json.write (finite report.toDatum) ++ "\n", "", [], none⟩

/-- Carries out a command; the log is kept if asked for. -/
def execute (files : FileReader) (c : Command) : Except Error Outcome :=
  let (result, log) := (if c.runs then c.run files else c.compile files).run []
  let kept := if c.verbose then String.join log else ""
  match result with
  | .ok outcome => .ok { outcome with errors := kept }
  | .error (.message exitCode text) =>
    .ok ⟨exitCode, "", kept ++ "Error: " ++ text ++ "\n", [], none⟩
  | .error (.unforeseen e) => .error e

end Command

def usage : String :=
  "usage: contractvm [-h] [--version] \x7bcompile,run\x7d ...\n\n" ++
  "  compile SOURCE --contract NAME --function NAME [--quiet] [--verbose]\n" ++
  "          [--bytecode-out FILE] [--abi-out FILE]\n" ++
  "  run SOURCE --contract NAME --function NAME [--quiet] [--verbose]\n" ++
  "          [--this FILE] [--args FILE] [--caller-key FILE] [--other-records FILE]\n" ++
  "          [--this-salts FILE] [--max-steps N]\n"

def version : String := "contractvm 0.1.0\n"

def execute (files : FileReader) (arguments : List String) : Except Error Outcome :=
  match read arguments with
  | .ok command => command.execute files
  | .error .help => .ok ⟨0, usage, "", [], none⟩
  | .error .version => .ok ⟨0, version, "", [], none⟩
  | .error .nothing => .ok ⟨1, usage, "", [], none⟩
  | .error .wrong => .ok ⟨2, "", usage, [], none⟩

end Covenant.CommandLine
