import Covenant.Run
/-!
The report of a run, as JSON data.
-/

namespace Covenant

structure Report where
  contract : String
  function : String
  /-- the hash of the written code -/
  program : String
  abiHash : String
  receiver : Datum
  result : Datum
  resultHash : Option Value.Words
  dependentFields : List String
  hashes : List Value.Words
  readAuth : Bool
  steps : Nat

namespace Report

def optionalJson : Option Value → Except Misuse Datum
  | none => .ok .null
  | some v => v.toJson

def ofOutput (f : LinkedFunction) (output : Output) : Except Misuse Report := do
  let receiver ← optionalJson output.receiver
  let result ← optionalJson output.result
  let resultHash ← output.result.mapM Value.commit
  return ⟨f.abi.contract, f.abi.function, f.fingerprint, f.abi.hash, receiver, result, resultHash,
    f.abi.dependentNames, output.hashes, output.readAuth, output.steps⟩

def wordsDatum (words : Value.Words) : Datum := .list (words.map fun (n : Nat) => .integer n)

def toDatum (r : Report) : Datum :=
  .record
    [("contract", .text r.contract), ("function", .text r.function), ("program", .text r.program),
     ("abi_hash", .text r.abiHash), ("this", r.receiver), ("result", r.result),
     ("result_hash",
       match r.resultHash with
       | some words => wordsDatum words
       | none => .null),
     ("dependent_fields", .list (r.dependentFields.map .text)),
     ("hashes", .list (r.hashes.map wordsDatum)), ("read_auth", .boolean r.readAuth),
     ("steps", .integer r.steps)]

end Report

namespace LinkedFunction

def report (f : LinkedFunction) (inputs : Inputs) (limit : Nat) : Except Error Report := do
  let output ← f.run inputs limit
  match Report.ofOutput f output with
  | .ok report => .ok report
  | .error why => .error (.misuse why)

end LinkedFunction

end Covenant
