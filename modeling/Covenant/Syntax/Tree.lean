/-!
The syntax tree of a program: record declarations with their fields and functions. A node carries
the line on which its text starts.
-/

namespace Covenant

inductive TypeExpr
  | named (name : String) (line : Nat)
  | array (element : TypeExpr)
  | object (fields : List (String × TypeExpr))
deriving Inhabited

inductive UnaryOp
  | not
  | negate
deriving DecidableEq, Repr

namespace UnaryOp

def text : UnaryOp → String
  | .not => "!"
  | .negate => "-"

end UnaryOp

inductive BinaryOp
  | or
  | and
  | equal
  | notEqual
  | less
  | lessEqual
  | greater
  | greaterEqual
  | add
  | sub
  | mul
  | div
  | mod
deriving DecidableEq, Repr

namespace BinaryOp

def text : BinaryOp → String
  | .or => "||"
  | .and => "&&"
  | .equal => "=="
  | .notEqual => "!="
  | .less => "<"
  | .lessEqual => "<="
  | .greater => ">"
  | .greaterEqual => ">="
  | .add => "+"
  | .sub => "-"
  | .mul => "*"
  | .div => "/"
  | .mod => "%"

/-- How tightly an operator binds; all group to the left. -/
def level : BinaryOp → Nat
  | .or => 0
  | .and => 1
  | .equal | .notEqual => 2
  | .less | .lessEqual | .greater | .greaterEqual => 3
  | .add | .sub => 4
  | .mul | .div | .mod => 5

end BinaryOp

inductive Expr
  | number (text : String) (line : Nat)
  | string (value : String) (line : Nat)
  | boolean (value : Bool) (line : Nat)
  | array (items : List Expr) (line : Nat)
  | name (name : String) (line : Nat)
  | this (line : Nat)
  | member (object : Expr) (name : String) (line : Nat)
  | index (object place : Expr) (line : Nat)
  | method (object : Expr) (name : String) (arguments : List Expr) (line : Nat)
  | call (name : String) (arguments : List Expr) (line : Nat)
  | unary (op : UnaryOp) (operand : Expr) (line : Nat)
  | binary (op : BinaryOp) (left right : Expr) (line : Nat)
deriving Inhabited

def Expr.line : Expr → Nat
  | .number _ line | .string _ line | .boolean _ line | .array _ line | .name _ line | .this line
  | .member _ _ line | .index _ _ line | .method _ _ _ line | .call _ _ line | .unary _ _ line
  | .binary _ _ _ line => line

inductive AssignOp
  | set
  | add
  | sub
deriving DecidableEq, Repr

def AssignOp.text : AssignOp → String
  | .set => "="
  | .add => "+="
  | .sub => "-="

inductive Stmt
  | block (statements : List Stmt) (line : Nat)
  | declare (name : String) (type : Option TypeExpr) (value : Expr) (line : Nat)
  | assign (target : Expr) (op : AssignOp) (value : Expr) (line : Nat)
  | ifThen (condition : Expr) (yes : Stmt) (line : Nat)
  | ifElse (condition : Expr) (yes no : Stmt) (line : Nat)
  | loop (condition : Expr) (body : Stmt) (line : Nat)
  | leave (value : Option Expr) (line : Nat)
  | evaluate (value : Expr) (line : Nat)
deriving Inhabited

inductive DirectiveArgument
  | path (names : List String)
  | key (text : String)
deriving DecidableEq, Repr

structure Directive where
  name : String
  arguments : List DirectiveArgument
  line : Nat
deriving DecidableEq, Repr

structure Parameter where
  name : String
  type : TypeExpr
  line : Nat

structure FieldDecl where
  name : String
  type : TypeExpr
  directives : List Directive
  line : Nat

structure FunctionDecl where
  name : String
  parameters : List Parameter
  result : Option TypeExpr
  body : Stmt
  directives : List Directive
  isConstructor : Bool
  line : Nat

structure RecordDecl where
  name : String
  fields : List FieldDecl
  functions : List FunctionDecl
  directives : List Directive
  line : Nat

abbrev Program := List RecordDecl

end Covenant
