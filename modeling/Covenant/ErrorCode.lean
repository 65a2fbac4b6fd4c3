/-!
The codes by which callers tell kinds of failure apart.
-/

namespace Covenant

inductive ErrorCode
  | parseError
  | unknownContract
  | unknownFunction
  | unknownField
  | unknownType
  | unknownIdentifier
  | typeMismatch
  | invalidDirective
  | duplicateDeclaration
  | unsupported
  | keyFormat
  | invalidInput
  | linkError
  | aborted
  | unauthorized
  | stepLimit
deriving DecidableEq, Repr

def ErrorCode.name : ErrorCode → String
  | .parseError => "PARSE_ERROR"
  | .unknownContract => "UNKNOWN_CONTRACT"
  | .unknownFunction => "UNKNOWN_FUNCTION"
  | .unknownField => "UNKNOWN_FIELD"
  | .unknownType => "UNKNOWN_TYPE"
  | .unknownIdentifier => "UNKNOWN_IDENTIFIER"
  | .typeMismatch => "TYPE_MISMATCH"
  | .invalidDirective => "INVALID_DIRECTIVE"
  | .duplicateDeclaration => "DUPLICATE_DECLARATION"
  | .unsupported => "UNSUPPORTED"
  | .keyFormat => "KEY_FORMAT"
  | .invalidInput => "INVALID_INPUT"
  | .linkError => "LINK_ERROR"
  | .aborted => "ABORTED"
  | .unauthorized => "UNAUTHORIZED"
  | .stepLimit => "STEP_LIMIT"

end Covenant
