import Covenant.Proofs.Syntax.Precedence
/-!
String literals. Each text stands in source text between either quotes, with its backslashes, line feeds and those
quotes escaped.

* `Token.next_literal`: where a string may stand, the next token is the whole literal, whatever follows it;
* `Reader.run_primary_string`, `Reader.run_expression_string`: an operand that is a string token is its value, and so
  is the expression unless it goes on;
* `Lexeme.literal_is_read_back`: both together, for each text.
-/

namespace Covenant

/-- A text without line feeds is passed over on its line. -/
theorem SourcePlace.skip_plain {w : List Char} (plain : '\n' ∉ w) (u : List Char) (line column : Nat) :
    (⟨w ++ u, line, column⟩ : SourcePlace).skip w.length = ⟨u, line, column + w.length⟩ := by
  induction w generalizing column with
  | nil => rfl
  | cons c w ih =>
    rw [List.mem_cons, not_or] at plain
    simp only [List.length_cons, List.cons_append, skip, if_neg (Ne.symm plain.1), ih plain.2, Nat.add_assoc,
      Nat.add_comm 1]

namespace Lexeme

variable {quote : Char} {expected : List Terminal}

theorem feed_notMem_escaped (quote : Char) (s : List Char) : '\n' ∉ escaped quote s := by
  induction s with
  | nil => exact List.not_mem_nil
  | cons c s ih =>
    rw [escaped]
    split
    next => simp [ih]
    next other => split <;> simp [ih, Ne.symm other]

/-- A literal stands on one line. -/
theorem feed_notMem_literal (is : IsQuote quote) (s : List Char) : '\n' ∉ literal quote s := by
  have ends : '\n' ≠ quote := by
    rintro rfl
    rcases is with h | h <;> cases h
  simp [literal, feed_notMem_escaped, ends]

theorem literal_append (quote : Char) (s u : List Char) :
    literal quote s ++ u = quote :: (escaped quote s ++ quote :: u) := by
  simp [literal]

/-- A literal is a string of its own size, whatever follows it. -/
theorem match?_literal (is : IsQuote quote) (operand : .string ∈ expected) (s u : List Char) :
    match? expected (literal quote s ++ u) = some (.string, (literal quote s).length) := by
  have size : stringSize (quote :: (escaped quote s ++ quote :: u)) = (literal quote s).length := by
    rw [stringSize_cons is, stringBodySize_escaped is]
    simp [literal]
  rw [literal_append, match?_quote is, size]
  exact if_pos ⟨operand, Nat.succ_ne_zero _⟩

end Lexeme

open Lexeme

/-- Where a string may stand, the next token is the whole literal, whatever follows it. -/
theorem Token.next_literal {quote : Char} (is : IsQuote quote) (s after : List Char) {expected : List Terminal}
    (operand : .string ∈ expected) {place start : SourcePlace} (before : Token)
    (reached : place.skipLayout place.rest.length = start) (stands : start.rest = literal quote s ++ after) :
    next expected before place = .ok (⟨.string, literal quote s, start.line, start.column⟩,
      ⟨after, start.line, start.column + (literal quote s).length⟩) := by
  obtain ⟨rest, line, column⟩ := start
  obtain rfl : rest = literal quote s ++ after := stands
  have skipped := SourcePlace.skip_plain (feed_notMem_literal is s) after line column
  have found := match?_literal is operand s after
  have taken : (literal quote s ++ after).take (literal quote s).length = literal quote s := List.take_left
  rw [literal_append] at reached skipped found taken
  simp only [next, reached, found, taken, skipped]

/-- A string may stand wherever an operand may. -/
example : [Expected.operand, Expected.itemsOr .closeParen, Expected.itemsOr .closeBracket, Expected.afterReturn,
    Expected.inBlock, Expected.afterStatement, Expected.afterBlock].all (·.contains .string) = true := by decide

namespace Reader

variable {r r' : Reading} {e : Expr}

/-- An operand that is a string token is its value. -/
theorem run_primary_string (string : r.token.terminal = .string) (fuel : Nat) :
    (primary (fuel + 1)).run r = (r.token.next Expected.afterOperand r.place).map fun (token, place) =>
      (.string (String.ofList (stringValue r.token.text)) r.token.line, ⟨token, place⟩) := by
  have here : (primary (fuel + 1)).run r = (do
      let token ← take Expected.afterOperand
      return Expr.string (String.ofList (stringValue token.text)) r.token.line : Reader Expr).run r := by
    rw [primary]
    simp only [currentLine, current, StateT.run_bind, StateT.run_get, pure_bind, bind_assoc, StateT.run_pure, string]
  rw [here, StateT.run_bind]
  cases next : r.token.next Expected.afterOperand r.place with
  | error fault =>
    have stops : (take Expected.afterOperand).run r = .error fault := by
      simp only [take, StateT.run_bind, StateT.run_get, pure_bind, next]
      rfl
    rw [stops]
    rfl
  | ok found =>
    have taken : (take Expected.afterOperand).run r = .ok (r.token, ⟨found.1, found.2⟩) :=
      run_take_eq_ok.mpr ⟨rfl, next⟩
    rw [taken]
    rfl

/-- Before a token that is no operator, no operation is read. -/
theorem run_binaryFrom_none (other : binaryOp? r.token.terminal = none) (fuel level line : Nat) :
    (binaryFrom (fuel + 1) level line e).run r = .ok (e, r) := by
  rw [binaryFrom]
  simp only [current, StateT.run_bind, StateT.run_get, pure_bind, bind_assoc, other]
  rfl

/-- An operand before a token that is no operator is an operation of each level. -/
theorem run_binary_of_unary (fuel : Nat) (other : binaryOp? r'.token.terminal = none)
    (operand : (unary (fuel + 1)).run r = .ok (e, r')) {level rest : Nat} (sum : level + rest = levels) :
    (binary (fuel + 2 + rest) level).run r = .ok (e, r') := by
  induction rest generalizing level with
  | zero =>
    obtain rfl : level = 6 := sum
    rw [Nat.add_zero, binary_highest, operand]
  | succ rest ih =>
    change level + (rest + 1) = 6 at sum
    have lower : level < 6 := by omega
    have upper : level + 1 + rest = 6 := by omega
    have left := ih upper
    have after := run_binaryFrom_none (e := e) other (fuel + 1 + rest) level r.token.line
    rw [← Nat.add_assoc, binary_lower lower]
    simp only [currentLine, StateT.run_bind, StateT.run_get, pure_bind, bind_assoc, left]
    rw [show fuel + 1 + rest + 1 = fuel + 2 + rest by omega] at after
    exact after

/-- An operand that is a string token is the expression, unless that goes on after it. -/
theorem run_expression_string (string : r.token.terminal = .string)
    (next : r.token.next Expected.afterOperand r.place = .ok (r'.token, r'.place))
    (ends : binaryOp? r'.token.terminal = none ∧ r'.token.terminal ≠ .dot ∧ r'.token.terminal ≠ .openBracket)
    (fuel : Nat) : (expression (fuel + 10)).run r =
      .ok (.string (String.ofList (stringValue r.token.text)) r.token.line, r') := by
  have first := run_primary_string string fuel
  rw [next] at first
  have alone : (accessFrom (fuel + 1) r.token.line (.string (String.ofList (stringValue r.token.text)) r.token.line)).run
      r' = .ok (.string (String.ofList (stringValue r.token.text)) r.token.line, r') := by
    rw [accessFrom]
    simp only [current, StateT.run_bind, StateT.run_get, pure_bind, bind_assoc]
    split
    next dot => exact absurd dot ends.2.1
    next bracket => exact absurd bracket ends.2.2
    next => rfl
  have operand : (unary (fuel + 3)).run r =
      .ok (.string (String.ofList (stringValue r.token.text)) r.token.line, r') := by
    rw [unary]
    simp only [currentLine, current, StateT.run_bind, StateT.run_get, pure_bind, bind_assoc, string]
    rw [access]
    simp only [currentLine, StateT.run_bind, StateT.run_get, pure_bind, bind_assoc, first, Except.map]
    exact alone
  exact run_binary_of_unary (fuel + 2) ends.1 operand (show 0 + 6 = levels from rfl)

end Reader

namespace Lexeme

/-- Each text can be written as a literal in either quotes: where an operand may stand, the literal is one token,
which ends at its last quote whatever follows; the operand that is read there has the text as its value; it is the
whole expression unless that goes on; and so it is in a program that gives the literal a name. -/
theorem literal_is_read_back {quote : Char} (is : IsQuote quote) (s after : List Char) {expected : List Terminal}
    (operand : .string ∈ expected) {place start : SourcePlace} (before : Token)
    (reached : place.skipLayout place.rest.length = start) (stands : start.rest = literal quote s ++ after) :
    let read : Reading := ⟨⟨.string, literal quote s, start.line, start.column⟩,
      ⟨after, start.line, start.column + (literal quote s).length⟩⟩
    let value : Expr := .string (String.ofList s) start.line
    Token.next expected before place = .ok (read.token, read.place) ∧
    (∀ fuel, (Reader.primary (fuel + 1)).run read =
      (read.token.next Expected.afterOperand read.place).map fun (t, p) => (value, ⟨t, p⟩)) ∧
    (∀ fuel t p, read.token.next Expected.afterOperand read.place = .ok (t, p) →
      Reader.binaryOp? t.terminal = none → t.terminal ≠ .dot → t.terminal ≠ .openBracket →
      (Reader.expression (fuel + 10)).run read = .ok (value, ⟨t, p⟩)) ∧
    ∃ program, Program.read (String.ofList (Program.valueText [(.string, literal quote s)])) = .ok program ∧
      program.bare = Program.ofValue (.string (String.ofList s) 0) := by
  intro read value
  have same : value = .string (String.ofList (stringValue read.token.text)) read.token.line := by
    rw [stringValue_literal is]
  refine ⟨Token.next_literal is s after operand before reached stands, fun fuel => ?_, ?_, ?_⟩
  · rw [same]
    exact Reader.run_primary_string rfl fuel
  · intro fuel t p next op dot bracket
    rw [same]
    let after : Reading := ⟨t, p⟩
    have next : read.token.next Expected.afterOperand read.place = .ok (after.token, after.place) := next
    exact Reader.run_expression_string rfl next ⟨op, dot, bracket⟩ fuel
  · have written : Expr.Writes 0 (.string (String.ofList s) 0) [(.string, literal quote s)] :=
      .string (isString_literal is s) (by rw [stringValue_literal is, String.toList_ofList])
    exact Program.read_valueText written

/-- A backslash before a quote, the other quote and a backslash at the end of the text, with another string after the
literal. -/
theorem backslashes_are_read_back :
    let read : Reading := ⟨⟨.string, "\"\\\\\\\"'\\n\\\\\"".toList, 3, 15⟩, ⟨" + \"x\";".toList, 3, 26⟩⟩
    IsQuote '"' ∧ Terminal.string ∈ Expected.operand ∧
    Token.next Expected.operand ⟨.return_, "return".toList, 3, 1⟩
      ⟨" /*\"*/ \"\\\\\\\"'\\n\\\\\" + \"x\";".toList, 3, 8⟩ = .ok (read.token, read.place) ∧
    ∃ rest, (Reader.primary 1).run read = .ok (.string "\\\"'\n\\" 3, rest) := by
  intro read
  have is : IsQuote '"' := .inl rfl
  have operand : Terminal.string ∈ Expected.operand := by decide
  have stands : (⟨read.token.text ++ read.place.rest, 3, 15⟩ : SourcePlace).rest =
      literal '"' "\\\"'\n\\".toList ++ " + \"x\";".toList := by decide +kernel
  let place : SourcePlace := ⟨" /*\"*/ \"\\\\\\\"'\\n\\\\\" + \"x\";".toList, 3, 8⟩
  have reached : place.skipLayout place.rest.length = ⟨read.token.text ++ read.place.rest, 3, 15⟩ := rfl
  obtain ⟨next, value, -, -⟩ := literal_is_read_back is "\\\"'\n\\".toList " + \"x\";".toList operand
    ⟨.return_, "return".toList, 3, 1⟩ reached stands
  refine ⟨is, operand, next, ⟨⟨.plus, ['+'], 3, 27⟩, ⟨" \"x\";".toList, 3, 28⟩⟩, ?_⟩
  exact value 0

end Lexeme

end Covenant
