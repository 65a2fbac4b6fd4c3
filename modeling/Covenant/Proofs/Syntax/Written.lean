import Covenant.Proofs.Syntax.Spelling
import Covenant.Syntax.Parser
/-!
Expressions as they are written.

* `Expr.Writes`: tokens that write an expression where operators must bind as tightly as a level, with parentheses
  where they are needed and maybe elsewhere;
* `Expr.tokens`: the tokens with parentheses only where they are needed;
* `Expr.writes_tokens`: these write the expression, when its names, numbers and words are such.
-/

namespace Covenant

def Terminal.token (t : Terminal) : Terminal × List Char := (t, (Terminal.fixed.lookup t).getD [])

def UnaryOp.terminal : UnaryOp → Terminal
  | .not => .bang
  | .negate => .minus

def BinaryOp.terminal : BinaryOp → Terminal
  | .or => .or
  | .and => .and
  | .equal => .equal
  | .notEqual => .notEqual
  | .less => .less
  | .lessEqual => .lessEqual
  | .greater => .greater
  | .greaterEqual => .greaterEqual
  | .add => .plus
  | .sub => .minus
  | .mul => .times
  | .div => .divide
  | .mod => .percent

namespace Expr

open Lexeme

/-- The words that are operands, and so no names where an operand may stand. -/
def operandWords : List (List Char) := ["true".toList, "false".toList, "this".toList]

/-- Tokens of items with a comma before each of them. -/
def further : List (List (Terminal × List Char)) → List (Terminal × List Char)
  | [] => []
  | ts :: rest => Terminal.comma.token :: ts ++ further rest

/-- Tokens of items with commas between them. -/
def commas : List (List (Terminal × List Char)) → List (Terminal × List Char)
  | [] => []
  | first :: rest => first ++ further rest

/-- Tokens write an expression where operators must bind as tightly as a level: those of two operands have the
levels from 0 to 5, 6 is that of an operator before its operand, and 7 that of what stands after an operand. -/
inductive Writes : Nat → Expr → List (Terminal × List Char) → Prop
  | paren {n : Nat} {e : Expr} {ts : List (Terminal × List Char)} (inner : Writes 0 e ts) :
      Writes n e (Terminal.openParen.token :: ts ++ [Terminal.closeParen.token])
  | binary {n : Nat} {op : BinaryOp} {left right : Expr} {line : Nat} {ts us : List (Terminal × List Char)}
      (level : n ≤ op.level) (first : Writes op.level left ts) (second : Writes (op.level + 1) right us) :
      Writes n (.binary op left right line) (ts ++ op.terminal.token :: us)
  | unary {n : Nat} {op : UnaryOp} {operand : Expr} {line : Nat} {ts : List (Terminal × List Char)}
      (level : n ≤ 6) (inner : Writes 6 operand ts) : Writes n (.unary op operand line) (op.terminal.token :: ts)
  | member {n : Nat} {object : Expr} {name : String} {line : Nat} {ts : List (Terminal × List Char)}
      (word : IsWord name.toList) (inner : Writes 7 object ts) :
      Writes n (.member object name line) (ts ++ [Terminal.dot.token, (.name, name.toList)])
  | index {n : Nat} {object place : Expr} {line : Nat} {ts us : List (Terminal × List Char)}
      (inner : Writes 7 object ts) (within : Writes 0 place us) : Writes n (.index object place line)
        (ts ++ Terminal.openBracket.token :: us ++ [Terminal.closeBracket.token])
  | method {n : Nat} {object : Expr} {name : String} {line : Nat} {ts : List (Terminal × List Char)}
      {arguments : List (Expr × List (Terminal × List Char))} (word : IsWord name.toList)
      (inner : Writes 7 object ts) (each : ∀ p ∈ arguments, Writes 0 p.1 p.2) :
      Writes n (.method object name (arguments.map Prod.fst) line)
        (ts ++ Terminal.dot.token :: (.name, name.toList) :: Terminal.openParen.token ::
          commas (arguments.map Prod.snd) ++ [Terminal.closeParen.token])
  | call {n : Nat} {name : String} {line : Nat} {arguments : List (Expr × List (Terminal × List Char))}
      (word : IsWord name.toList) (other : name.toList ∉ operandWords)
      (each : ∀ p ∈ arguments, Writes 0 p.1 p.2) : Writes n (.call name (arguments.map Prod.fst) line)
        ((.name, name.toList) :: Terminal.openParen.token :: commas (arguments.map Prod.snd) ++
          [Terminal.closeParen.token])
  | array {n : Nat} {line : Nat} {items : List (Expr × List (Terminal × List Char))}
      (each : ∀ p ∈ items, Writes 0 p.1 p.2) : Writes n (.array (items.map Prod.fst) line)
        (Terminal.openBracket.token :: commas (items.map Prod.snd) ++ [Terminal.closeBracket.token])
  | number {n : Nat} {text : String} {line : Nat} (number : IsNumber text.toList) :
      Writes n (.number text line) [(.number, text.toList)]
  | string {n : Nat} {value : String} {line : Nat} {w : List Char} (string : IsString w)
      (is : stringValue w = value.toList) : Writes n (.string value line) [(.string, w)]
  | boolean {n : Nat} {value : Bool} {line : Nat} :
      Writes n (.boolean value line) [(bif value then Terminal.true_ else .false_).token]
  | name {n : Nat} {name : String} {line : Nat} (word : IsWord name.toList) (other : name.toList ∉ operandWords) :
      Writes n (.name name line) [(.name, name.toList)]
  | this {n : Nat} {line : Nat} : Writes n (.this line) [Terminal.this.token]

/-- Tokens in parentheses when they are needed. -/
def inParens (needed : Bool) (ts : List (Terminal × List Char)) : List (Terminal × List Char) :=
  bif needed then Terminal.openParen.token :: ts ++ [Terminal.closeParen.token] else ts

mutual
/-- The tokens of an expression where operators must bind as tightly as a level, with parentheses only where they
are needed. -/
def tokens (n : Nat) : Expr → List (Terminal × List Char)
  | .number text _ => [(.number, text.toList)]
  | .string value _ => [(.string, literal '"' value.toList)]
  | .boolean value _ => [(bif value then Terminal.true_ else .false_).token]
  | .array items _ => Terminal.openBracket.token :: commas (tokensOfEach items) ++ [Terminal.closeBracket.token]
  | .name text _ => [(.name, text.toList)]
  | .this _ => [Terminal.this.token]
  | .member object text _ => tokens 7 object ++ [Terminal.dot.token, (.name, text.toList)]
  | .index object place _ =>
    tokens 7 object ++ Terminal.openBracket.token :: tokens 0 place ++ [Terminal.closeBracket.token]
  | .method object text arguments _ => tokens 7 object ++ Terminal.dot.token :: (.name, text.toList) ::
      Terminal.openParen.token :: commas (tokensOfEach arguments) ++ [Terminal.closeParen.token]
  | .call text arguments _ => (.name, text.toList) :: Terminal.openParen.token :: commas (tokensOfEach arguments) ++
      [Terminal.closeParen.token]
  | .unary op operand _ => inParens (6 < n) (op.terminal.token :: tokens 6 operand)
  | .binary op left right _ =>
    inParens (op.level < n) (tokens op.level left ++ op.terminal.token :: tokens (op.level + 1) right)

def tokensOfEach : List Expr → List (List (Terminal × List Char))
  | [] => []
  | e :: rest => tokens 0 e :: tokensOfEach rest
end

/-- An expression whose names, numbers and words can be written. -/
inductive Writable : Expr → Prop
  | number {text : String} {line : Nat} (number : IsNumber text.toList) : Writable (.number text line)
  | string {value : String} {line : Nat} : Writable (.string value line)
  | boolean {value : Bool} {line : Nat} : Writable (.boolean value line)
  | array {items : List Expr} {line : Nat} (each : ∀ e ∈ items, Writable e) : Writable (.array items line)
  | name {name : String} {line : Nat} (word : IsWord name.toList) (other : name.toList ∉ operandWords) :
      Writable (.name name line)
  | this {line : Nat} : Writable (.this line)
  | member {object : Expr} {name : String} {line : Nat} (word : IsWord name.toList) (inner : Writable object) :
      Writable (.member object name line)
  | index {object place : Expr} {line : Nat} (inner : Writable object) (within : Writable place) :
      Writable (.index object place line)
  | method {object : Expr} {name : String} {arguments : List Expr} {line : Nat} (word : IsWord name.toList)
      (inner : Writable object) (each : ∀ e ∈ arguments, Writable e) : Writable (.method object name arguments line)
  | call {name : String} {arguments : List Expr} {line : Nat} (word : IsWord name.toList)
      (other : name.toList ∉ operandWords) (each : ∀ e ∈ arguments, Writable e) :
      Writable (.call name arguments line)
  | unary {op : UnaryOp} {operand : Expr} {line : Nat} (inner : Writable operand) : Writable (.unary op operand line)
  | binary {op : BinaryOp} {left right : Expr} {line : Nat} (first : Writable left) (second : Writable right) :
      Writable (.binary op left right line)

theorem tokensOfEach_eq (items : List Expr) : tokensOfEach items = items.map (tokens 0) := by
  induction items with
  | nil => rfl
  | cons e rest ih => rw [tokensOfEach, ih, List.map_cons]

/-- The tokens with parentheses only where they are needed write the expression. -/
theorem writes_tokens {e : Expr} (h : e.Writable) (n : Nat) : Writes n e (tokens n e) := by
  have parts (items : List Expr) : (items.map fun e => (e, tokens 0 e)).map Prod.fst = items ∧
      (items.map fun e => (e, tokens 0 e)).map Prod.snd = tokensOfEach items := by
    rw [tokensOfEach_eq, List.map_map, List.map_map]
    exact ⟨List.map_id items, rfl⟩
  have each {items : List Expr} (ih : ∀ e ∈ items, ∀ n, Writes n e (tokens n e)) :
      ∀ p ∈ items.map fun e => (e, tokens 0 e), Writes 0 p.1 p.2 := by
    intro p hp
    obtain ⟨e, he, rfl⟩ := List.mem_map.mp hp
    exact ih e he 0
  induction h generalizing n with
  | number number => exact .number number
  | string => exact .string (isString_literal (.inl rfl) _) (stringValue_literal (.inl rfl) _)
  | boolean => exact .boolean
  | @array items line _ ih =>
    have written := @Writes.array n line _ (each ih)
    rw [(parts items).1, (parts items).2] at written
    exact written
  | name word other => exact .name word other
  | this => exact .this
  | member word _ ih => exact .member word (ih 7)
  | index _ _ ih ih' => exact .index (ih 7) (ih' 0)
  | @method object name arguments line word _ _ ih ih' =>
    have written := @Writes.method n _ _ line _ _ word (ih 7) (each ih')
    rw [(parts arguments).1, (parts arguments).2] at written
    exact written
  | @call name arguments line word other _ ih =>
    have written := @Writes.call n _ line _ word other (each ih)
    rw [(parts arguments).1, (parts arguments).2] at written
    exact written
  | unary _ ih =>
    rw [tokens, inParens]
    cases needed : decide (6 < n) with
    | false => exact .unary (Nat.not_lt.mp (of_decide_eq_false needed)) (ih 6)
    | true => exact .paren (.unary (Nat.zero_le 6) (ih 6))
  | @binary op _ _ _ _ _ ih ih' =>
    rw [tokens, inParens]
    cases needed : decide (op.level < n) with
    | false => exact .binary (Nat.not_lt.mp (of_decide_eq_false needed)) (ih _) (ih' _)
    | true => exact .paren (.binary (Nat.zero_le _) (ih _) (ih' _))

end Expr

end Covenant
