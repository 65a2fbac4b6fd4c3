import Covenant.Text.Base64
import Covenant.Term.Basic
/-!
Instructions of the stack machine. Targets of jumps are of a type of their own: labels in written
code, places in linked code. Each instruction takes values from the stack and puts values on it.
-/

namespace Covenant

inductive PushKind
  | primitive (type : Primitive)
  | key
  /-- a kind that only unchecked code names -/
  | other (name : String)
deriving DecidableEq, Repr

def PushKind.name : PushKind → String
  | .primitive type => type.name
  | .key => "key"
  | .other name => name

inductive Instruction (Target : Type)
  | push (kind : PushKind) (value : Datum)
  | loadThis (field : String)
  | storeThis (field : String)
  | loadLocal (slot : Nat)
  | storeLocal (slot : Nat)
  | loadContext (name : String)
  | getField (name : String)
  | setField (name : String)
  | deref (contract : String)
  | arrayNew (count : Nat)
  | arrayLength
  | arrayGet
  | arraySet
  | arrayPush
  | arrayIndexOf
  | arrayIncludes
  | textLength
  | concat
  | compare (comparison : Comparison)
  | not
  | truthy
  | keyMatch
  | jump (target : Target)
  | jumpIfFalse (target : Target)
  | jumpIfTrue (target : Target)
  | dup
  | drop
  | abort
  | abortUnauthorized
  | leave
  | leaveValue
  | arith (op : Arith) (type : Primitive)
  /-- what stands for a word, with an operand, as only unchecked code has it -/
  | loose (word operand : Datum)

namespace Comparison

def all : List Comparison := [.equal, .notEqual, .less, .lessEqual, .greater, .greaterEqual]

def name : Comparison → String
  | .equal => "eq"
  | .notEqual => "neq"
  | .less => "lt"
  | .lessEqual => "lte"
  | .greater => "gt"
  | .greaterEqual => "gte"

end Comparison

namespace Instruction

variable {Target : Type}

def name : Instruction Target → String
  | .push kind _ => "push." ++ kind.name
  | .loadThis _ => "load.this"
  | .storeThis _ => "store.this"
  | .loadLocal _ => "load.local"
  | .storeLocal _ => "store.local"
  | .loadContext _ => "load.ctx"
  | .getField _ => "get.field"
  | .setField _ => "set.field"
  | .deref _ => "deref"
  | .arrayNew _ => "array.new"
  | .arrayLength => "array.len"
  | .arrayGet => "array.get"
  | .arraySet => "array.set"
  | .arrayPush => "array.push"
  | .arrayIndexOf => "array.index_of"
  | .arrayIncludes => "array.includes"
  | .textLength => "string.len"
  | .concat => "concat"
  | .compare comparison => comparison.name
  | .not => "not"
  | .truthy => "truthy"
  | .keyMatch => "key.match"
  | .jump _ => "jmp"
  | .jumpIfFalse _ => "jz"
  | .jumpIfTrue _ => "jnz"
  | .dup => "dup"
  | .drop => "drop"
  | .abort => "abort"
  | .abortUnauthorized => "abort.unauthorized"
  | .leave => "ret"
  | .leaveValue => "ret.value"
  | .arith op type => op.name ++ "." ++ type.name
  | .loose word _ => word.shown

def pops : Instruction Target → Nat
  | .push _ _ | .loadThis _ | .loadLocal _ | .loadContext _ | .jump _ | .abortUnauthorized
  | .leave | .loose _ _ => 0
  | .storeThis _ | .storeLocal _ | .getField _ | .deref _ | .arrayLength | .textLength | .not
  | .truthy | .jumpIfFalse _ | .jumpIfTrue _ | .dup | .drop | .abort | .leaveValue => 1
  | .setField _ | .arrayGet | .arrayPush | .arrayIndexOf | .arrayIncludes | .concat | .compare _
  | .keyMatch => 2
  | .arraySet => 3
  | .arrayNew count => count
  | .arith .neg _ => 1
  | .arith _ _ => 2

def pushes : Instruction Target → Nat
  | .storeThis _ | .storeLocal _ | .jump _ | .jumpIfFalse _ | .jumpIfTrue _ | .drop | .abort
  | .abortUnauthorized | .leave | .leaveValue | .loose _ _ => 0
  | .dup => 2
  | _ => 1

/-- Whether nothing is executed after an instruction. -/
def isLast : Instruction Target → Bool
  | .abort | .abortUnauthorized | .leave | .leaveValue => true
  | _ => false

end Instruction

namespace Instruction

variable {Target : Type}

/-- The instructions without an operand and of no type. -/
def plain : List (Instruction Target) :=
  [.arrayLength, .arrayGet, .arraySet, .arrayPush, .arrayIndexOf, .arrayIncludes, .textLength,
   .concat, .not, .truthy, .keyMatch, .dup, .drop, .abort, .abortUnauthorized, .leave,
   .leaveValue] ++ Comparison.all.map .compare

end Instruction

/-- A line of written code: an instruction or a label, which marks the place of the instruction
after it. -/
inductive Line
  | label (name : String)
  | instruction (instruction : Instruction String)

abbrev Code := List Line

namespace Line

def name : Line → String
  | .label _ => "label"
  | .instruction i => i.name

/-- What is written after the first word; null when there is nothing. -/
def operand : Line → Datum
  | .label name => .text name
  | .instruction i =>
    match i with
    | .push _ value => value
    | .loadThis name | .storeThis name | .loadContext name | .getField name | .setField name
    | .deref name | .jump name | .jumpIfFalse name | .jumpIfTrue name => .text name
    | .loadLocal n | .storeLocal n | .arrayNew n => .integer n
    | _ => .null

/-- Whether a datum can be pushed as a value of a primitive type. Bytes are written in base 64,
and an integer stands for a double as well. -/
def fits (type : Primitive) (d : Datum) : Bool :=
  match type, d with
  | .boolean, .boolean _ => true
  | .string, .text _ => true
  | .bytes, .text s =>
    match Text.Base64.readStrict s.toList with
    | .ok _ => true
    | .error _ => false
  | .f32, .integer _ | .f64, .integer _ | .f32, .float _ | .f64, .float _ => true
  | p, .integer i =>
    match p.range? with
    | some (low, high) => low ≤ i && i ≤ high
    | none => false
  | _, _ => false

/-- The line that an operand completes, if it fits. -/
abbrev Completion := Datum → Option Line

def withName (f : String → Instruction String) : Completion
  | .text s => if s = "" then none else some (.instruction (f s))
  | _ => none

def withCount (f : Nat → Instruction String) : Completion
  | .integer i => if 0 ≤ i then some (.instruction (f i.toNat)) else none
  | _ => none

def alone (i : Instruction String) : Completion
  | .null => some (.instruction i)
  | _ => none

def withLabel : Completion
  | .text s => if s = "" then none else some (.label s)
  | _ => none

def withKey : Completion
  | .text s => if s = "" then none else some (.instruction (.push .key (.text s)))
  | _ => none

def withLiteral (type : Primitive) : Completion := fun d =>
  if fits type d then some (.instruction (.push (.primitive type) d)) else none

def arithmetic : List (Instruction String) :=
  (Primitive.all.filter Primitive.isNumeric).flatMap fun type =>
    [Arith.add, .sub, .mul, .div, .mod, .neg].map fun op => .arith op type

/-- The first words of all lines, and what completes each. -/
def completions : List (String × Completion) :=
  [("load.this", withName .loadThis), ("store.this", withName .storeThis),
   ("load.local", withCount .loadLocal), ("store.local", withCount .storeLocal),
   ("load.ctx", withName .loadContext), ("get.field", withName .getField),
   ("set.field", withName .setField), ("deref", withName .deref),
   ("array.new", withCount .arrayNew), ("label", withLabel), ("jmp", withName .jump),
   ("jz", withName .jumpIfFalse), ("jnz", withName .jumpIfTrue), ("push.key", withKey)] ++
  Primitive.all.map (fun type => ("push." ++ type.name, withLiteral type)) ++
  ((Instruction.plain : List (Instruction String)) ++ arithmetic).map fun i => (i.name, alone i)

def completion? (word : String) : Option Completion := completions.lookup word

end Line

end Covenant
