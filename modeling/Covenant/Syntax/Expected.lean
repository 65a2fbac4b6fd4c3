import Covenant.Syntax.Token
/-!
The terminals that can stand after each kind of token. The sets leave out where exactly the token
stands: a closing parenthesis expects the same whatever it closes in an expression.
-/

namespace Covenant.Expected

open Terminal

/-- What an operand may begin with. -/
def operand : List Terminal :=
  [bang, openParen, minus, name, number, string, openBracket, false_, this, true_]

def afterOperand : List Terminal :=
  [notEqual, percent, and, closeParen, times, plus, addAssign, comma, minus, subAssign, dot, divide,
   semicolon, less, lessEqual, assign, equal, greater, greaterEqual, openBracket, closeBracket, or]

/-- A name may also be what is called. -/
def afterName : List Terminal := openParen :: afterOperand

/-- What items in brackets, or their end, may begin with. -/
def itemsOr (closing : Terminal) : List Terminal := closing :: operand

def statement : List Terminal := operand ++ [if_, let_, return_, while_, openBrace]

/-- A statement or the end of its block. -/
def inBlock : List Terminal := closeBrace :: statement

def afterStatement : List Terminal := else_ :: inBlock

/-- The end of a block may also end the body of a function. -/
def afterBlock : List Terminal := afterStatement ++ [at_, constructor, function]

def afterReturn : List Terminal := semicolon :: operand

def afterLetName : List Terminal := [colon, assign]

def typeStart : List Terminal := [name, openBrace]

def afterType : List Terminal := [closeParen, comma, semicolon, assign, openBracket, openBrace]

def inObjectType : List Terminal := [name, closeBrace]

def parametersOrEnd : List Terminal := [closeParen, name]

def afterParameters : List Terminal := [colon, openBrace]

def declaration : List Terminal := [at_, collection, contract]

def member : List Terminal := [at_, name, constructor, function, closeBrace]

def afterMemberName : List Terminal := [openParen, colon]

/-- What may follow a directive, on a record or on a member. -/
def afterDirective : List Terminal := [at_, name, collection, constructor, contract, function]

def afterDirectiveName : List Terminal := openParen :: afterDirective

def directiveArgument : List Terminal := [keyLiteral, name]

def afterKeyLiteral : List Terminal := [closeParen, comma]

def afterPathName : List Terminal := [closeParen, comma, dot]

end Covenant.Expected
