import Covenant.Syntax.Expected
import Covenant.Syntax.Tree
/-!
Reading a program. Each function reads one construct from the current token on and leaves the token
after it as the current one. Taking a token reads the next one among the terminals that may follow.
A construct has the line of its first token; parentheses around an operand count as its text.
-/

namespace Covenant

structure Reading where
  token : Token
  place : SourcePlace

abbrev Reader := StateT Reading (Except SyntaxFault)

namespace Reader

def current : Reader Terminal := return (← get).token.terminal

def currentLine : Reader Nat := return (← get).token.line

def unexpected {α : Type} : Reader α := do throw (← get).token.fault

/-- Takes the current token and reads the next one. -/
def take (following : List Terminal) : Reader Token := do
  let r ← get
  match r.token.next following r.place with
  | .ok (token, place) =>
    set (Reading.mk token place)
    return r.token
  | .error fault => throw fault

def expect (terminal : Terminal) (following : List Terminal) : Reader Token := do
  if (← current) = terminal then take following else unexpected

def expectName (following : List Terminal) : Reader String := do
  return String.ofList (← expect .name following).text

def binaryOp? : Terminal → Option BinaryOp
  | .or => some .or
  | .and => some .and
  | .equal => some .equal
  | .notEqual => some .notEqual
  | .less => some .less
  | .lessEqual => some .lessEqual
  | .greater => some .greater
  | .greaterEqual => some .greaterEqual
  | .plus => some .add
  | .minus => some .sub
  | .times => some .mul
  | .divide => some .div
  | .percent => some .mod
  | _ => none

def levels : Nat := 6

def assignOp? : Terminal → Option AssignOp
  | .assign => some .set
  | .addAssign => some .add
  | .subAssign => some .sub
  | _ => none

mutual
/-- An expression of operators that bind at least as tightly as a level. -/
def binary (fuel level : Nat) : Reader Expr := do
  match fuel with
  | 0 => unexpected
  | fuel + 1 =>
    if level < levels then
      let line ← currentLine
      let left ← binary fuel (level + 1)
      binaryFrom fuel level line left
    else unary fuel

/-- The operators of one level that follow a left operand. -/
def binaryFrom (fuel level line : Nat) (left : Expr) : Reader Expr := do
  match fuel with
  | 0 => unexpected
  | fuel + 1 =>
    match binaryOp? (← current) with
    | some op =>
      if op.level = level then
        let _ ← take Expected.operand
        let right ← binary fuel (level + 1)
        binaryFrom fuel level line (.binary op left right line)
      else return left
    | none => return left

def unary (fuel : Nat) : Reader Expr := do
  match fuel with
  | 0 => unexpected
  | fuel + 1 =>
    let line ← currentLine
    match ← current with
    | .bang =>
      let _ ← take Expected.operand
      return .unary .not (← unary fuel) line
    | .minus =>
      let _ ← take Expected.operand
      return .unary .negate (← unary fuel) line
    | _ => access fuel

/-- An operand with members, places and calls after it. -/
def access (fuel : Nat) : Reader Expr := do
  match fuel with
  | 0 => unexpected
  | fuel + 1 =>
    let line ← currentLine
    let object ← primary fuel
    accessFrom fuel line object

def accessFrom (fuel line : Nat) (object : Expr) : Reader Expr := do
  match fuel with
  | 0 => unexpected
  | fuel + 1 =>
    match ← current with
    | .dot =>
      let _ ← take [.name]
      let name ← expectName Expected.afterName
      if (← current) = .openParen then
        let _ ← take (Expected.itemsOr .closeParen)
        let arguments ← items fuel .closeParen
        let _ ← expect .closeParen Expected.afterOperand
        accessFrom fuel line (.method object name arguments line)
      else accessFrom fuel line (.member object name line)
    | .openBracket =>
      let _ ← take Expected.operand
      let index ← binary fuel 0
      let _ ← expect .closeBracket Expected.afterOperand
      accessFrom fuel line (.index object index line)
    | _ => return object

def primary (fuel : Nat) : Reader Expr := do
  match fuel with
  | 0 => unexpected
  | fuel + 1 =>
    let line ← currentLine
    match ← current with
    | .number =>
      let token ← take Expected.afterOperand
      return .number (String.ofList token.text) line
    | .string =>
      let token ← take Expected.afterOperand
      return .string (String.ofList (Lexeme.stringValue token.text)) line
    | .true_ =>
      let _ ← take Expected.afterOperand
      return .boolean true line
    | .false_ =>
      let _ ← take Expected.afterOperand
      return .boolean false line
    | .this =>
      let _ ← take Expected.afterOperand
      return .this line
    | .name =>
      let name ← expectName Expected.afterName
      if (← current) = .openParen then
        let _ ← take (Expected.itemsOr .closeParen)
        let arguments ← items fuel .closeParen
        let _ ← expect .closeParen Expected.afterOperand
        return .call name arguments line
      else return .name name line
    | .openParen =>
      let _ ← take Expected.operand
      let inner ← binary fuel 0
      let _ ← expect .closeParen Expected.afterOperand
      return inner
    | .openBracket =>
      let _ ← take (Expected.itemsOr .closeBracket)
      let items ← items fuel .closeBracket
      let _ ← expect .closeBracket Expected.afterOperand
      return .array items line
    | _ => unexpected

/-- Expressions with commas between them, possibly none, up to a closing terminal. -/
def items (fuel : Nat) (closing : Terminal) : Reader (List Expr) := do
  match fuel with
  | 0 => unexpected
  | fuel + 1 =>
    if (← current) = closing then return []
    else
      let first ← binary fuel 0
      return first :: (← itemsFrom fuel)

def itemsFrom (fuel : Nat) : Reader (List Expr) := do
  match fuel with
  | 0 => unexpected
  | fuel + 1 =>
    if (← current) = .comma then
      let _ ← take Expected.operand
      let item ← binary fuel 0
      return item :: (← itemsFrom fuel)
    else return []
end

def expression (fuel : Nat) : Reader Expr := binary fuel 0

/-- The rest of an expression whose first operand has been read: the operators of each level, from
the tightest one below `level` on. -/
def expressionFrom (fuel line : Nat) (first : Expr) : Nat → Reader Expr
  | 0 => return first
  | level + 1 => do
    let e ← binaryFrom fuel level line first
    expressionFrom fuel line e level

mutual
def type (fuel : Nat) : Reader TypeExpr := do
  match fuel with
  | 0 => unexpected
  | fuel + 1 =>
    let line ← currentLine
    match ← current with
    | .name =>
      let name ← expectName Expected.afterType
      arrayType fuel (.named name line)
    | .openBrace =>
      let _ ← take Expected.inObjectType
      let fields ← objectFields fuel
      let _ ← expect .closeBrace Expected.afterType
      arrayType fuel (.object fields)
    | _ => unexpected

/-- The pairs of brackets after a type. -/
def arrayType (fuel : Nat) (element : TypeExpr) : Reader TypeExpr := do
  match fuel with
  | 0 => unexpected
  | fuel + 1 =>
    if (← current) = .openBracket then
      let _ ← take [.closeBracket]
      let _ ← expect .closeBracket Expected.afterType
      arrayType fuel (.array element)
    else return element

def objectFields (fuel : Nat) : Reader (List (String × TypeExpr)) := do
  match fuel with
  | 0 => unexpected
  | fuel + 1 =>
    if (← current) = .name then
      let name ← expectName [.colon]
      let _ ← expect .colon Expected.typeStart
      let t ← type fuel
      let _ ← expect .semicolon Expected.inObjectType
      return (name, t) :: (← objectFields fuel)
    else return []
end

def optionalType (fuel : Nat) : Reader (Option TypeExpr) := do
  if (← current) = .colon then
    let _ ← take Expected.typeStart
    return some (← type fuel)
  else return none

mutual
def statement (fuel : Nat) : Reader Stmt := do
  match fuel with
  | 0 => unexpected
  | fuel + 1 =>
    let line ← currentLine
    match ← current with
    | .openBrace => block fuel
    | .let_ =>
      let _ ← take [.name]
      let name ← expectName Expected.afterLetName
      let t ← optionalType fuel
      let _ ← expect .assign Expected.operand
      let value ← expression fuel
      let _ ← expect .semicolon Expected.afterStatement
      return .declare name t value line
    | .if_ =>
      let _ ← take [.openParen]
      let _ ← expect .openParen Expected.operand
      let condition ← expression fuel
      let _ ← expect .closeParen Expected.statement
      let yes ← statement fuel
      if (← current) = .else_ then
        let _ ← take Expected.statement
        return .ifElse condition yes (← statement fuel) line
      else return .ifThen condition yes line
    | .while_ =>
      let _ ← take [.openParen]
      let _ ← expect .openParen Expected.operand
      let condition ← expression fuel
      let _ ← expect .closeParen Expected.statement
      return .loop condition (← statement fuel) line
    | .return_ =>
      let _ ← take Expected.afterReturn
      if (← current) = .semicolon then
        let _ ← take Expected.afterStatement
        return .leave none line
      else
        let value ← expression fuel
        let _ ← expect .semicolon Expected.afterStatement
        return .leave (some value) line
    | .bang | .minus =>
      let value ← expression fuel
      let _ ← expect .semicolon Expected.afterStatement
      return .evaluate value line
    | _ =>
      let first ← access fuel
      match assignOp? (← current) with
      | some op =>
        let _ ← take Expected.operand
        let value ← expression fuel
        let _ ← expect .semicolon Expected.afterStatement
        return .assign first op value line
      | none =>
        let value ← expressionFrom fuel line first levels
        let _ ← expect .semicolon Expected.afterStatement
        return .evaluate value line

def block (fuel : Nat) : Reader Stmt := do
  match fuel with
  | 0 => unexpected
  | fuel + 1 =>
    let line ← currentLine
    let _ ← expect .openBrace Expected.inBlock
    let inner ← statements fuel
    let _ ← expect .closeBrace Expected.afterBlock
    return .block inner line

def statements (fuel : Nat) : Reader (List Stmt) := do
  match fuel with
  | 0 => unexpected
  | fuel + 1 =>
    if (← current) = .closeBrace then return []
    else
      let first ← statement fuel
      return first :: (← statements fuel)
end

def parameter (fuel : Nat) : Reader Parameter := do
  let line ← currentLine
  let name ← expectName [.colon]
  let _ ← expect .colon Expected.typeStart
  return ⟨name, ← type fuel, line⟩

def parametersFrom (fuel : Nat) : Reader (List Parameter) := do
  match fuel with
  | 0 => unexpected
  | fuel + 1 =>
    if (← current) = .comma then
      let _ ← take [.name]
      let first ← parameter fuel
      return first :: (← parametersFrom fuel)
    else return []

/-- Parameters in parentheses, and the next token among those that may follow. -/
def parameters (fuel : Nat) (following : List Terminal) : Reader (List Parameter) := do
  let _ ← expect .openParen Expected.parametersOrEnd
  let found ←
    if (← current) = .closeParen then pure []
    else do
      let first ← parameter fuel
      let rest ← parametersFrom fuel
      pure (first :: rest)
  let _ ← expect .closeParen following
  return found

def pathFrom (fuel : Nat) : Reader (List String) := do
  match fuel with
  | 0 => unexpected
  | fuel + 1 =>
    if (← current) = .dot then
      let _ ← take [.name]
      let name ← expectName Expected.afterPathName
      return name :: (← pathFrom fuel)
    else return []

def directiveArgument (fuel : Nat) : Reader DirectiveArgument := do
  match ← current with
  | .keyLiteral =>
    let token ← take Expected.afterKeyLiteral
    return .key (String.ofList token.text)
  | .name =>
    let first ← expectName Expected.afterPathName
    return .path (first :: (← pathFrom fuel))
  | _ => unexpected

def directiveArgumentsFrom (fuel : Nat) : Reader (List DirectiveArgument) := do
  match fuel with
  | 0 => unexpected
  | fuel + 1 =>
    if (← current) = .comma then
      let _ ← take Expected.directiveArgument
      let first ← directiveArgument fuel
      return first :: (← directiveArgumentsFrom fuel)
    else return []

def directive (fuel : Nat) : Reader Directive := do
  let line ← currentLine
  let _ ← expect .at_ [.name]
  let name ← expectName Expected.afterDirectiveName
  if (← current) = .openParen then
    let _ ← take Expected.directiveArgument
    let first ← directiveArgument fuel
    let rest ← directiveArgumentsFrom fuel
    let _ ← expect .closeParen Expected.afterDirective
    return ⟨name, first :: rest, line⟩
  else return ⟨name, [], line⟩

def directives (fuel : Nat) : Reader (List Directive) := do
  match fuel with
  | 0 => unexpected
  | fuel + 1 =>
    if (← current) = .at_ then
      let first ← directive fuel
      return first :: (← directives fuel)
    else return []

def functionFrom (fuel : Nat) (ds : List Directive) (name : String) (line : Nat) :
    Reader FunctionDecl := do
  let ps ← parameters fuel Expected.afterParameters
  let result ← optionalType fuel
  let body ← block fuel
  return ⟨name, ps, result, body, ds, false, line⟩

def member (fuel : Nat) : Reader (FieldDecl ⊕ FunctionDecl) := do
  let ds ← directives fuel
  let line ← currentLine
  match ← current with
  | .constructor =>
    let _ ← take [.openParen]
    let ps ← parameters fuel [.openBrace]
    let body ← block fuel
    return .inr ⟨"constructor", ps, none, body, ds, true, line⟩
  | .function =>
    let _ ← take [.name]
    let name ← expectName [.openParen]
    return .inr (← functionFrom fuel ds name line)
  | .name =>
    let name ← expectName Expected.afterMemberName
    if (← current) = .colon then
      let _ ← take Expected.typeStart
      let t ← type fuel
      let _ ← expect .semicolon Expected.member
      return .inl ⟨name, t, ds, line⟩
    else return .inr (← functionFrom fuel ds name line)
  | _ => unexpected

def members (fuel : Nat) : Reader (List FieldDecl × List FunctionDecl) := do
  match fuel with
  | 0 => unexpected
  | fuel + 1 =>
    if (← current) = .closeBrace then return ([], [])
    else
      let first ← member fuel
      let (fields, functions) ← members fuel
      match first with
      | .inl field => return (field :: fields, functions)
      | .inr function => return (fields, function :: functions)

def record (fuel : Nat) : Reader RecordDecl := do
  let line ← currentLine
  let ds ← directives fuel
  match ← current with
  | .contract | .collection =>
    let _ ← take [.name]
    let name ← expectName [.openBrace]
    let _ ← expect .openBrace Expected.member
    let (fields, functions) ← members fuel
    let _ ← expect .closeBrace Expected.declaration
    return ⟨name, fields, functions, ds, line⟩
  | _ => unexpected

def records (fuel : Nat) : Reader Program := do
  match fuel with
  | 0 => unexpected
  | fuel + 1 =>
    if (← current) = .endOfText then return []
    else
      let first ← record fuel
      return first :: (← records fuel)

end Reader

namespace Program

/-- The nesting of calls that reading a text of a length can need. -/
def fuelFor (length : Nat) : Nat := 16 * length + 64

def readChars (source : List Char) : Except SyntaxFault Program := do
  let start : Token := ⟨.endOfText, [], 1, 1⟩
  let (token, place) ← start.next Expected.declaration ⟨source, 1, 1⟩
  let (program, _) ← (Reader.records (fuelFor source.length)).run ⟨token, place⟩
  return program

/-- The program that a text writes. -/
def read (source : String) : Except SyntaxFault Program := readChars source.toList

end Program

end Covenant
