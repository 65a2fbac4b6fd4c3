import Covenant.CommandLine.Command
/-!
The program: reads the files that the arguments name, carries the command out and writes what it
comes to.
-/

namespace Covenant.CommandLine

def FileFault.ofSystem : IO.Error → FileFault
  | .inappropriateType _ 21 _ => .isDirectory
  | .inappropriateType _ 20 _ => .notDirectory
  | .invalidArgument _ 36 _ => .longName
  | .invalidArgument _ _ _ => .badName
  | _ => .missing

def readFile (path : String) : IO (Except FileFault String) := do
  try return .ok (← IO.FS.readFile path)
  catch e => return .error (.ofSystem e)

/-- Reads files once, before the command begins. -/
def readFiles (paths : List String) : IO FileReader := do
  let files ← paths.mapM fun path => return (path, ← readFile path)
  return fun path => (files.lookup path).getD (.error .missing)

def pathsOf (arguments : List String) : List String :=
  match read arguments with
  | .ok command => command.readPaths.map tidy
  | .error _ => []

end Covenant.CommandLine

open Covenant in
def main (arguments : List String) : IO UInt32 := do
  let files ← CommandLine.readFiles (CommandLine.pathsOf arguments)
  match CommandLine.execute files arguments with
  | .error _ => throw (IO.userError "the command cannot be carried out")
  | .ok outcome =>
    for (path, text) in outcome.files do
      IO.FS.writeFile path text
    if outcome.misuse.isSome then throw (IO.userError "the command cannot be carried out")
    IO.print outcome.output
    IO.eprint outcome.errors
    return outcome.exitCode.toUInt32
