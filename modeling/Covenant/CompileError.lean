import Covenant.ErrorCode
import Covenant.Key.Codec
import Covenant.Syntax.Tree
import Covenant.Ty
/-!
Why a program or a function of it is rejected.
-/

namespace Covenant

inductive Complaint
  | duplicateRecord (name : String)
  | duplicateConstructor (record : String)
  | duplicateMember (name record : String)
  | unknownContract (name : String)
  | unknownType (name : String)
  | duplicateObjectField
  | repeatedDirective (name : String)
  | delegateCount (record : String) (count : Nat)
  | recordDirective (name : String)
  | recordDirectiveArguments (name : String)
  | publicAndPrivate (record : String)
  | fieldDirective (name : String)
  | fieldDirectiveArguments (name : String)
  | delegateType (field : String)
  | functionDirective (name : String)
  | constructorDirective
  | keyLiteral (text : String) (fault : KeyFault)
  | longPath (path : List String) (record : String)
  | unknownField (name : String)
  | unknownReferencedField (contract name : String)
  | policyField (name : String)
  | unknownFunction (name : String)
  | alreadyDeclared (name : String)
  | unknownIdentifier (name : String)
  | mismatch (expected found : Ty)
  | conditionType (found : Ty)
  | noResultType
  | missingResult (type : Ty)
  | undefinedOperator (text : String) (type : Ty)
  | contextTarget
  | referencedTarget (contract : String)
  | noFields (type : Ty)
  | notArray (type : Ty)
  | target
  | noValue
  | placeType (found : Ty)
  | contextAlone
  | thisAlone
  | fractionalLiteral (type : Primitive) (text : String)
  | literalRange (text : String) (type : Primitive)
  /-- an integer literal with more digits than are read -/
  | literalSize
  | emptyArray
  | contextAttribute (name : String)
  | noSuchField (type : Ty) (name : String)
  | argumentCount (function : String)
  | arraysOnly (method : String)
  | unknownMethod (name : String)
  | notNegatable (type : Ty)
  | unordered (type : Ty)

namespace Complaint

def code : Complaint → ErrorCode
  | .duplicateRecord _ | .duplicateConstructor _ | .duplicateMember _ _ | .duplicateObjectField
  | .alreadyDeclared _ => .duplicateDeclaration
  | .unknownContract _ => .unknownContract
  | .unknownType _ => .unknownType
  | .repeatedDirective _ | .delegateCount _ _ | .recordDirective _ | .recordDirectiveArguments _
  | .publicAndPrivate _ | .fieldDirective _ | .fieldDirectiveArguments _ | .delegateType _
  | .functionDirective _ | .constructorDirective | .keyLiteral _ _ | .policyField _ =>
    .invalidDirective
  | .longPath _ _ | .contextTarget | .referencedTarget _ | .target | .contextAlone
  | .thisAlone => .unsupported
  | .unknownField _ | .unknownReferencedField _ _ | .contextAttribute _ | .noSuchField _ _ =>
    .unknownField
  | .unknownFunction _ | .unknownMethod _ => .unknownFunction
  | .unknownIdentifier _ => .unknownIdentifier
  | .mismatch _ _ | .conditionType _ | .noResultType | .missingResult _ | .undefinedOperator _ _
  | .noFields _ | .notArray _ | .noValue | .placeType _ | .fractionalLiteral _ _ | .literalRange _ _
  | .literalSize | .emptyArray | .argumentCount _ | .arraysOnly _ | .notNegatable _
  | .unordered _ => .typeMismatch

def message : Complaint → String
  | .duplicateRecord name => "Record '" ++ name ++ "' is declared more than once"
  | .duplicateConstructor record => "Record '" ++ record ++ "' declares more than one constructor"
  | .duplicateMember name record =>
    "'" ++ name ++ "' is declared more than once in '" ++ record ++ "'"
  | .unknownContract name => "Contract not found: " ++ name
  | .unknownType name => "Unknown type '" ++ name ++ "'"
  | .duplicateObjectField => "Object type has duplicate fields"
  | .repeatedDirective name => "Directive @" ++ name ++ " is given more than once"
  | .delegateCount record count =>
    "Record '" ++ record ++ "' must declare exactly one @delegate field, found " ++
      Decimal.natural count
  | .recordDirective name => "Unknown record directive @" ++ name
  | .recordDirectiveArguments name => "@" ++ name ++ " takes no arguments"
  | .publicAndPrivate record => "Record '" ++ record ++ "' cannot be both @public and @private"
  | .fieldDirective name => "Unknown field directive @" ++ name
  | .fieldDirectiveArguments name => "Field directive @" ++ name ++ " takes no arguments"
  | .delegateType field => "@delegate field '" ++ field ++ "' must be a PublicKey"
  | .functionDirective name => "Unknown function directive @" ++ name
  | .constructorDirective => "The constructor is always callable and takes no @call directive"
  | .keyLiteral text fault => "Invalid key literal '" ++ text ++ "': " ++ fault.message
  | .longPath path record =>
    "Directive argument '" ++ ".".intercalate path ++ "' must name a field of '" ++ record ++ "'"
  | .unknownField name => "Field not found: " ++ name
  | .unknownReferencedField contract name => "Field not found: " ++ contract ++ "." ++ name
  | .policyField name =>
    "Field '" ++ name ++ "' must be a PublicKey or a record with a @delegate field"
  | .unknownFunction name => "Function not found: " ++ name
  | .alreadyDeclared name => "'" ++ name ++ "' is already declared"
  | .unknownIdentifier name => "Unknown identifier '" ++ name ++ "'"
  | .mismatch expected found =>
    "Type mismatch: expected " ++ expected.describe ++ ", found " ++ found.describe
  | .conditionType found => "Condition must be a boolean, found " ++ found.describe
  | .noResultType => "Function does not declare a return type"
  | .missingResult type => "Function must return a value of type " ++ type.describe
  | .undefinedOperator text type =>
    "Operator '" ++ text ++ "' is not defined for " ++ type.describe
  | .contextTarget => "Cannot assign to ctx"
  | .referencedTarget contract => "Cannot assign to a field of referenced record " ++ contract
  | .noFields type => type.describe ++ " has no fields"
  | .notArray type => type.describe ++ " is not an array"
  | .target => "Invalid assignment target"
  | .noValue => "Expression does not produce a value"
  | .placeType found => "Array index must be an integer, found " ++ found.describe
  | .contextAlone => "'ctx' can only be used as ctx.publicKey"
  | .thisAlone => "'this' must be followed by a field access"
  | .fractionalLiteral type text =>
    "Expected " ++ type.name ++ ", found non-integer literal " ++ text
  | .literalRange text type => "Literal " ++ text ++ " is out of range for " ++ type.name
  | .literalSize => "Literal has too many digits"
  | .emptyArray => "Cannot infer the type of an empty array literal"
  | .contextAttribute name => "Unknown context attribute '" ++ name ++ "'"
  | .noSuchField type name => type.describe ++ " has no field '" ++ name ++ "'"
  | .argumentCount function => function ++ " takes exactly one argument"
  | .arraysOnly method => method ++ " is only defined on arrays"
  | .unknownMethod name => "Unknown method '" ++ name ++ "'"
  | .notNegatable type => "Cannot negate " ++ type.describe
  | .unordered type => "Cannot order values of type " ++ type.describe

end Complaint

/-- A complaint and the line it is about; some are about no line, or about none in particular, which
is line 0. -/
structure CompileError where
  complaint : Complaint
  line : Option Nat

namespace CompileError

/-- The message names the line when there is one. -/
def message (e : CompileError) : String :=
  match e.line with
  | some (n + 1) => e.complaint.message ++ " (line " ++ Decimal.natural (n + 1) ++ ")"
  | _ => e.complaint.message

def throw {α : Type} (complaint : Complaint) (line : Nat) : Except CompileError α :=
  .error ⟨complaint, some line⟩

/-- Fails with a complaint about no line. -/
def throwGlobal {α : Type} (complaint : Complaint) : Except CompileError α :=
  .error ⟨complaint, none⟩

end CompileError

end Covenant
