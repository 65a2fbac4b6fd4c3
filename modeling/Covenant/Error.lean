import Covenant.CallFault
import Covenant.Code.Text
import Covenant.CompileError
import Covenant.Json.Canonical
import Covenant.Syntax.Token
/-!
All the ways in which a request can fail.
-/

namespace Covenant

inductive Error
  | parse (fault : SyntaxFault)
  | compile (error : CompileError)
  | call (fault : CallFault)
  | link (fault : LinkFault)
  /-- inputs that were made for another function -/
  | otherInputs (inputs abi : String)
  | execution (failure : Failure)
  | unfit (why : Json.Unfit)
  /-- a description or an option that is not valid -/
  | invalid
  | misuse (why : Misuse)

namespace Error

/-- What the language does not foresee has no code and no message. -/
def misuse? : Error → Option Misuse
  | .compile ⟨.literalSize, _⟩ | .unfit .tooLong | .call (.key .unquotable) => some .domain
  | .call (.misuse why) | .link (.misuse why) | .execution (.misuse why) | .misuse why => some why
  | _ => none

def code? (e : Error) : Option ErrorCode :=
  match e.misuse? with
  | some _ => none
  | none =>
    match e with
    | .parse _ => some .parseError
    | .compile error => some error.complaint.code
    | .call (.key _) => some .keyFormat
    | .call _ => some .invalidInput
    | .link _ | .otherInputs _ _ => some .linkError
    | .execution .unauthorized => some .unauthorized
    | .execution (.stepLimit _) => some .stepLimit
    | .execution _ => some .aborted
    | .unfit _ | .invalid | .misuse _ => none

def message : Error → String
  | .parse fault => fault.message ++ " (line " ++ Decimal.natural fault.line ++ ")"
  | .compile error => error.message
  | .call fault => fault.message
  | .link fault => fault.message
  | .otherInputs inputs abi => "Inputs were built for " ++ inputs ++ ", not " ++ abi
  | .execution failure => failure.message
  | .unfit why => why.message
  | .invalid | .misuse _ => ""

end Error

end Covenant
