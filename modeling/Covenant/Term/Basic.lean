import Covenant.Machine.Failure
/-!
Programs after type checking. A term is an expression with all types decided: literals are values,
names are slots, and an operator is the one of its operands' type. An action is a statement whose
targets are paths from a slot or a field of the receiver.
-/

namespace Covenant

inductive Comparison
  | equal
  | notEqual
  | less
  | lessEqual
  | greater
  | greaterEqual
deriving DecidableEq, Repr

inductive Term
  | literal (type : Primitive) (value : Datum)
  /-- a parameter or a declared name -/
  | slot (index : Nat)
  /-- a field of the receiver -/
  | field (name : String)
  /-- the key of the caller -/
  | caller
  | member (record : Term) (name : String)
  /-- the supplied record that a reference stands for -/
  | referenced (contract : String) (reference : Term)
  | element (array place : Term)
  | array (items : List Term)
  | arraySize (array : Term)
  | textSize (text : Term)
  | indexOf (array target : Term)
  | includes (array target : Term)
  /-- an array with one more item -/
  | appended (array item : Term)
  | not (condition : Term)
  /-- whether a number, a text or a key counts as true -/
  | truth (value : Term)
  | arith (op : Arith) (type : Primitive) (left right : Term)
  | negate (type : Primitive) (operand : Term)
  | join (left right : Term)
  | compare (comparison : Comparison) (left right : Term)
  /-- the right condition counts only if the left one holds -/
  | both (left right : Term)
  /-- the right condition counts only if the left one does not hold -/
  | either (left right : Term)
deriving Inhabited

inductive Root
  | slot (index : Nat)
  | field (name : String)
deriving DecidableEq, Repr

namespace Root

def read : Root → Term
  | .slot index => .slot index
  | .field name => .field name

end Root

inductive PathStep
  | member (name : String)
  | element (place : Term)

namespace PathStep

def read (whole : Term) : PathStep → Term
  | .member name => .member whole name
  | .element place => .element whole place

end PathStep

inductive Action
  | sequence (actions : List Action)
  /-- replaces the value at the end of a path -/
  | assign (root : Root) (path : List PathStep) (value : Term)
  | ifThen (condition : Term) (yes : Action)
  | ifElse (condition : Term) (yes no : Action)
  | loop (condition : Term) (body : Action)
  | leave (value : Option Term)
  | abort (message : Term)
  | evaluate (value : Term)
deriving Inhabited

end Covenant
