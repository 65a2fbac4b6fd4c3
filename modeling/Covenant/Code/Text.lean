import Covenant.Code.Instruction
import Covenant.Json.Reader
import Covenant.Json.Writer
import Covenant.Key.Codec
import Covenant.Text.Blank
/-!
Written code: a header, then a line for each instruction or label, its first word and its operand
as JSON text. Blank lines and blanks around a line count for nothing.
-/

namespace Covenant

structure Header where
  contract : String
  function : String
  parameters : Nat
  locals : Nat
  returns : Bool
deriving DecidableEq, Repr

inductive LinkFault
  | empty
  | header (line : String)
  | unknownOperation (word : String) (line : Nat)
  | badOperand (word : String) (line : Nat) (message : String)
  | invalidOperand (operand : Datum) (word : String) (line : Nat)
  | otherFunction (contract function abiContract abiFunction : String)
  | parameterCount (code abi : Nat)
  | result
  | fewLocals
  | duplicateLabel (name : String)
  | undefinedLabel (name : String)
  | unknownField (word name : String)
  | unknownRecord (name : String)
  | slot (index locals : Nat)
  | contextAttribute (name : String)
  | keyOperand (fault : KeyFault)
  | pastEnd
  | depths (place first second : Nat)
  | underflow (place : Nat) (word : String)
  /-- a number beyond what is read or beyond the doubles, or an operand nested too deep -/
  | misuse (why : Misuse)

def LinkFault.message : LinkFault → String
  | .empty => "Bytecode is empty"
  | .header line => "Malformed bytecode header: " ++ Text.Quoted.text line
  | .unknownOperation word line =>
    "Unknown opcode '" ++ word ++ "' at line " ++ Decimal.natural line
  | .badOperand word line message =>
    "Bad operand for '" ++ word ++ "' at line " ++ Decimal.natural line ++ ": " ++ message
  | .invalidOperand operand word line =>
    "Invalid operand " ++ operand.quoted ++ " for '" ++ word ++ "' at line " ++
      Decimal.natural line
  | .otherFunction contract function abiContract abiFunction =>
    "Bytecode is for " ++ contract ++ "." ++ function ++ ", ABI is for " ++ abiContract ++ "." ++
      abiFunction
  | .parameterCount code abi =>
    "Bytecode takes " ++ Decimal.natural code ++ " parameter(s), ABI declares " ++
      Decimal.natural abi
  | .result => "Bytecode and ABI disagree on whether the function returns a value"
  | .fewLocals => "Bytecode declares fewer locals than parameters"
  | .duplicateLabel name => "Duplicate label '" ++ name ++ "'"
  | .undefinedLabel name => "Jump to undefined label '" ++ name ++ "'"
  | .unknownField word name => "'" ++ word ++ "' names unknown field '" ++ name ++ "'"
  | .unknownRecord name => "'deref' names record type '" ++ name ++ "' missing from the ABI"
  | .slot index locals =>
    "Local slot " ++ Decimal.natural index ++ " is out of range (locals=" ++
      Decimal.natural locals ++ ")"
  | .contextAttribute name => "Unknown context attribute '" ++ name ++ "'"
  | .keyOperand fault => "Invalid key operand: " ++ fault.message
  | .pastEnd => "Execution can run past the end of the function"
  | .depths place first second =>
    "Instruction " ++ Decimal.natural place ++ " is reached with stack depth " ++
      Decimal.natural first ++ " and " ++ Decimal.natural second
  | .underflow place word =>
    "Stack underflow at instruction " ++ Decimal.natural place ++ " ('" ++ word ++ "')"
  | .misuse _ => ""

namespace Header

def write (h : Header) : String :=
  ".function " ++ h.contract ++ "." ++ h.function ++ " params=" ++ Decimal.natural h.parameters ++
    " locals=" ++ Decimal.natural h.locals ++ " returns=" ++ (if h.returns then "1" else "0")

/-- What follows a word at the start of a text. -/
def after? (word : String) (s : List Char) : Option (List Char) :=
  if word.toList.isPrefixOf s then some (s.drop word.length) else none

/-- The digits, of any script, at the start of a text, and what follows. -/
def digits? (s : List Char) : Option (List Char × List Char) :=
  let n := (s.takeWhile fun c => (Text.digit? c).isSome).length
  if n = 0 then none else some (s.take n, s.drop n)

/-- The parts of a header: contract, function, and the digits of both counts. -/
def parts? (s : List Char) : Option (String × String × List Char × List Char × Bool) := do
  let s ← after? ".function " s
  let contract := s.takeWhile fun c => c != '.' && !Text.isBlank c
  let s ← after? "." (s.drop contract.length)
  let function := s.takeWhile fun c => !Text.isBlank c
  if contract.isEmpty || function.isEmpty then none
  let s ← after? " params=" (s.drop function.length)
  let (parameters, s) ← digits? s
  let s ← after? " locals=" s
  let (locals, s) ← digits? s
  let s ← after? " returns=" s
  let returns ← match s with
    | ['0'] => some false
    | ['1'] => some true
    | _ => none
  return (String.ofList contract, String.ofList function, parameters, locals, returns)

def read (line : List Char) : Except LinkFault Header :=
  match parts? (Text.trim line) with
  | none => .error (.header (String.ofList line))
  | some (contract, function, parameters, locals, returns) =>
    match Text.naturalOf? parameters, Text.naturalOf? locals with
    | some parameters, some locals => .ok ⟨contract, function, parameters, locals, returns⟩
    | _, _ => .error (.misuse .domain)

end Header

namespace Line

def write (line : Line) : String :=
  match line.operand with
  | .null => line.name
  | operand => line.name ++ " " ++ Json.write operand

/-- The operand that follows the first word of a line; nothing counts as null. -/
def readOperand (word : String) (number : Nat) (s : List Char) : Except LinkFault Datum :=
  if s.isEmpty then .ok .null
  else match Json.readWithin Datum.nestingLimit s with
    | .ok d => .ok d
    | .error (.at expected position) =>
      .error (.badOperand word number (Json.message s expected position))
    | .error .tooLong | .error .tooDeep => .error (.misuse .domain)

def read (number : Nat) (text : List Char) : Except LinkFault Line := do
  let s := Text.trim text
  let first := s.takeWhile (· != ' ')
  let word := String.ofList first
  match completion? word with
  | none => .error (.unknownOperation word number)
  | some completion =>
    let operand ← readOperand word number (s.drop (first.length + 1))
    match completion operand with
    | some line => .ok line
    | none => .error (.invalidOperand operand word number)

end Line

namespace Code

def write (header : Header) (code : Code) : String :=
  "\n".intercalate (header.write :: code.map Line.write) ++ "\n"

def readLines (number : Nat) : List (List Char) → Except LinkFault Code
  | [] => .ok []
  | first :: rest => do
    let line ← Line.read number first
    return line :: (← readLines (number + 1) rest)

/-- The header and the code that a text writes. Lines are counted without the blank ones. -/
def read (text : String) : Except LinkFault (Header × Code) :=
  match (Text.lines text.toList).filter fun line => !(Text.trim line).isEmpty with
  | [] => .error .empty
  | first :: rest => do
    let header ← Header.read first
    return (header, ← readLines 2 rest)

end Code

end Covenant
