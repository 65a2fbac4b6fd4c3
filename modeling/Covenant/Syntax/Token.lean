import Covenant.Number.Decimal
import Covenant.Text.Hex
import Covenant.Text.Quoted
/-!
Tokens of source text. Which token stands at a place depends on the terminals that may stand there:
a word like `let` is a name where only names are expected, and the beginning of a longer word counts
as a keyword where names are not expected.
-/

namespace Covenant

inductive Terminal
  | endOfText
  | keyLiteral
  | name
  | number
  | string
  | contract
  | collection
  | function
  | constructor
  | let_
  | if_
  | else_
  | while_
  | return_
  | true_
  | false_
  | this
  | at_
  | comma
  | colon
  | semicolon
  | dot
  | openParen
  | closeParen
  | openBrace
  | closeBrace
  | openBracket
  | closeBracket
  | assign
  | addAssign
  | subAssign
  | or
  | and
  | equal
  | notEqual
  | less
  | lessEqual
  | greater
  | greaterEqual
  | plus
  | minus
  | times
  | divide
  | percent
  | bang
deriving DecidableEq, Repr

namespace Terminal

/-- The terminals with one text, longer texts first. -/
def fixed : List (Terminal × List Char) :=
  [(.constructor, "constructor".toList), (.collection, "collection".toList),
   (.contract, "contract".toList), (.function, "function".toList), (.return_, "return".toList),
   (.false_, "false".toList), (.while_, "while".toList), (.else_, "else".toList),
   (.this, "this".toList), (.true_, "true".toList), (.let_, "let".toList), (.if_, "if".toList),
   (.addAssign, ['+', '=']), (.subAssign, ['-', '=']), (.or, ['|', '|']), (.and, ['&', '&']),
   (.equal, ['=', '=']), (.notEqual, ['!', '=']), (.lessEqual, ['<', '=']),
   (.greaterEqual, ['>', '=']), (.at_, ['@']), (.comma, [',']), (.colon, [':']),
   (.semicolon, [';']), (.dot, ['.']), (.openParen, ['(']), (.closeParen, [')']),
   (.openBrace, ['\x7b']), (.closeBrace, ['\x7d']), (.openBracket, ['[']), (.closeBracket, [']']),
   (.assign, ['=']), (.less, ['<']), (.greater, ['>']), (.plus, ['+']), (.minus, ['-']),
   (.times, ['*']), (.divide, ['/']), (.percent, ['%']), (.bang, ['!'])]

def all : List Terminal := [.keyLiteral, .name, .number, .string] ++ fixed.map (·.1)

end Terminal

namespace Lexeme

def isNameStart (c : Char) : Bool :=
  ('a' ≤ c && c ≤ 'z') || ('A' ≤ c && c ≤ 'Z') || c == '_'

def isDigit (c : Char) : Bool := '0' ≤ c && c ≤ '9'

def isNamePart (c : Char) : Bool := isNameStart c || isDigit c

/-- The length of the name at the start of a text; 0 when there is none. -/
def nameSize : List Char → Nat
  | [] => 0
  | c :: rest => if isNameStart c then 1 + (rest.takeWhile isNamePart).length else 0

/-- The length of a name, a number sign and hexadecimal digits. -/
def keyLiteralSize (s : List Char) : Nat :=
  let n := nameSize s
  match s.drop n with
  | '#' :: rest =>
    let digits := (rest.takeWhile fun c => (Text.hexValue? c).isSome).length
    if n = 0 ∨ digits = 0 then 0 else n + 1 + digits
  | _ => 0

/-- The length of digits, with a point and digits after them if there are any. -/
def numberSize (s : List Char) : Nat :=
  let whole := (s.takeWhile isDigit).length
  if whole = 0 then 0
  else match s.drop whole with
    | '.' :: rest =>
      let fraction := (rest.takeWhile isDigit).length
      if fraction = 0 then whole else whole + 1 + fraction
    | _ => whole

/-- The length of a string from after its opening quote to its closing one. A backslash goes with
the character after it; a line feed ends the search. -/
def stringBodySize (quote : Char) : List Char → Option Nat
  | [] => none
  | '\\' :: c :: rest => if c = '\n' then none else (stringBodySize quote rest).map (· + 2)
  | c :: rest =>
    if c = quote then some 1
    else if c = '\n' ∨ c = '\\' then none
    else (stringBodySize quote rest).map (· + 1)

def stringSize : List Char → Nat
  | '"' :: rest => ((stringBodySize '"' rest).map (· + 1)).getD 0
  | '\'' :: rest => ((stringBodySize '\'' rest).map (· + 1)).getD 0
  | _ => 0

/-- The character that a backslash and a letter stand for; any other is itself. -/
def escapedChar : Char → Char
  | 'n' => '\n'
  | 't' => '\t'
  | 'r' => '\r'
  | '0' => Char.ofNat 0
  | c => c

def unescape : List Char → List Char
  | [] => []
  | '\\' :: c :: rest => escapedChar c :: unescape rest
  | c :: rest => c :: unescape rest

def stringValue (token : List Char) : List Char := unescape (token.drop 1).dropLast

def isSpace (c : Char) : Bool :=
  c == ' ' || c == '\t' || c == '\n' || c == '\r' || c == Char.ofNat 12

/-- The length of a comment from after its opening mark to the end of its closing one. -/
def commentBodySize : List Char → Option Nat
  | [] => none
  | '*' :: '/' :: _ => some 2
  | _ :: rest => (commentBodySize rest).map (· + 1)

/-- The length of the run of blanks or the comment at the start of a text; 0 when there is none. A
comment that is never closed is none. -/
def layoutSize : List Char → Nat
  | '/' :: '/' :: rest => 2 + (rest.takeWhile (· != '\n')).length
  | '/' :: '*' :: rest => ((commentBodySize rest).map (· + 2)).getD 0
  | s => (s.takeWhile isSpace).length

/-- The terminal at the start of a text and its length, among the expected ones. A name that is an
expected keyword is that keyword. -/
def match? (expected : List Terminal) (s : List Char) : Option (Terminal × Nat) :=
  if expected.contains .keyLiteral && keyLiteralSize s != 0 then
    some (.keyLiteral, keyLiteralSize s)
  else if expected.contains .name && nameSize s != 0 then
    let text := s.take (nameSize s)
    match Terminal.fixed.find? fun f => expected.contains f.1 && f.2 == text with
    | some f => some (f.1, nameSize s)
    | none => some (.name, nameSize s)
  else if expected.contains .number && numberSize s != 0 then some (.number, numberSize s)
  else if expected.contains .string && stringSize s != 0 then some (.string, stringSize s)
  else (Terminal.fixed.find? fun f => expected.contains f.1 && f.2.isPrefixOf s).map fun f =>
    (f.1, f.2.length)

end Lexeme

structure SourcePlace where
  rest : List Char
  line : Nat
  column : Nat

namespace SourcePlace

def skip (place : SourcePlace) : Nat → SourcePlace
  | 0 => place
  | n + 1 =>
    match place.rest with
    | [] => place
    | c :: rest =>
      if c = '\n' then skip ⟨rest, place.line + 1, 1⟩ n
      else skip ⟨rest, place.line, place.column + 1⟩ n

/-- The place after blanks and comments, at most `n` of them. -/
def skipLayout (place : SourcePlace) : Nat → SourcePlace
  | 0 => place
  | n + 1 =>
    let size := Lexeme.layoutSize place.rest
    if size = 0 then place else skipLayout (place.skip size) n

end SourcePlace

structure Token where
  terminal : Terminal
  text : List Char
  line : Nat
  column : Nat

inductive SyntaxFault
  | token (text : String) (line column : Nat)
  | character (c : Char) (line column : Nat)
deriving DecidableEq, Repr

namespace SyntaxFault

def line : SyntaxFault → Nat
  | .token _ line _ | .character _ line _ => line

def column : SyntaxFault → Nat
  | .token _ _ column | .character _ _ column => column

def message : SyntaxFault → String
  | .token text _ _ => "Unexpected token " ++ text
  | .character c _ _ => "Unexpected character " ++ Text.Quoted.text (String.singleton c)

end SyntaxFault

namespace Token

/-- The fault of a token that stands where it is not expected. -/
def fault (t : Token) : SyntaxFault := .token (String.ofList t.text) t.line t.column

/-- The next token, among the expected terminals, and the place after it. The end of the text
stands where the token before it stood. If no expected terminal is there but another one is, the
fault is about that token, otherwise about the character. -/
def next (expected : List Terminal) (before : Token) (place : SourcePlace) :
    Except SyntaxFault (Token × SourcePlace) :=
  let place := place.skipLayout place.rest.length
  match place.rest with
  | [] => .ok (⟨.endOfText, [], before.line, before.column⟩, place)
  | c :: _ =>
    let found (t : Terminal) (size : Nat) : Token :=
      ⟨t, place.rest.take size, place.line, place.column⟩
    match Lexeme.match? expected place.rest with
    | some (t, size) => .ok (found t size, place.skip size)
    | none =>
      match Lexeme.match? Terminal.all place.rest with
      | some (t, size) => .error (found t size).fault
      | none => .error (.character c place.line place.column)

end Token

end Covenant
