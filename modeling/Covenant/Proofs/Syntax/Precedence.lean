import Covenant.Proofs.Syntax.Reads
import Covenant.Proofs.Syntax.Written
/-!
Expressions are read as they are written, by precedence.

* `Begins`, `Follows`: tokens with which expressions begin, and tokens before which expressions of a level end;
* `Reader.ReadAs`: tokens of an expression are read, and then reading goes on as if the expression had been read as
  the first operand of a level; one lemma for each form of expressions says that its tokens are read so;
* `Reader.readAs_of_writes`: so all that is written is read;
* `read_by_precedence`: in a program, too, and what is written is of one expression only.
-/

namespace Covenant

open Lexeme

namespace Expr

/-! ## Where expressions begin and end -/

/-- A token with which an expression may begin, where an operand or items are expected. -/
structure Begins (t : Terminal × List Char) : Prop where
  operand : match? Expected.operand t.2 = some (t.1, t.2.length)
  item : ∀ closing ∈ [Terminal.closeParen, .closeBracket],
    match? (Expected.itemsOr closing) t.2 = some (t.1, t.2.length) ∧ t.1 ≠ closing

theorem begins_token {t : Terminal}
    (h : t ∈ [Terminal.bang, .openParen, .minus, .openBracket, .false_, .this, .true_]) : Begins t.token := by
  have all : ∀ t ∈ [Terminal.bang, .openParen, .minus, .openBracket, .false_, .this, .true_],
      match? Expected.operand t.token.2 = some (t, t.token.2.length) ∧
      ∀ closing ∈ [Terminal.closeParen, .closeBracket],
        match? (Expected.itemsOr closing) t.token.2 = some (t, t.token.2.length) ∧ t ≠ closing := by
    decide
  exact ⟨(all t h).1, (all t h).2⟩

theorem begins_word {w : List Char} (word : IsWord w) (other : w ∉ operandWords) : Begins (.name, w) := by
  have marks : ∀ f ∈ Terminal.fixed, f.1 ∈ .closeParen :: .closeBracket :: Expected.operand →
      f.2 ∈ operandWords ∨ nameSize f.2 = 0 := by
    decide
  have different : ∀ f ∈ Terminal.fixed, f.1 ∈ .closeParen :: .closeBracket :: Expected.operand → f.2 ≠ w := by
    rintro f hf here rfl
    rcases marks f hf here with h | h
    · exact other h
    · exact word.1 (List.length_eq_zero_iff.mp (word.2.symm.trans h))
  refine ⟨match?_word word (by decide) (by decide) fun f hf here => different f hf (by simp [here]),
    fun closing hc => ?_⟩
  have within : .name ∈ Expected.itemsOr closing ∧ .keyLiteral ∉ Expected.itemsOr closing ∧ .name ≠ closing ∧
      ∀ t ∈ Expected.itemsOr closing, t ∈ .closeParen :: .closeBracket :: Expected.operand := by
    revert closing
    decide
  exact ⟨match?_word word within.1 within.2.1 fun f hf here => different f hf (within.2.2.2 _ here), within.2.2.1⟩

/-- Where a name must stand, each word is one. -/
theorem match?_name {w : List Char} (word : IsWord w) : match? [.name] w = some (.name, w.length) := by
  have none : ∀ f ∈ Terminal.fixed, f.1 ∉ [Terminal.name] := by decide
  exact match?_word word (by decide) (by decide) fun f hf here => absurd here (none f hf)

theorem begins_number {w : List Char} (number : IsNumber w) : Begins (.number, w) := by
  refine ⟨match?_number number (by decide) (by decide), fun closing hc => ?_⟩
  have within : .number ∈ Expected.itemsOr closing ∧ .keyLiteral ∉ Expected.itemsOr closing ∧ .number ≠ closing := by
    revert closing
    decide
  exact ⟨match?_number number within.1 within.2.1, within.2.2⟩

theorem begins_string {w : List Char} (string : IsString w) : Begins (.string, w) := by
  refine ⟨match?_string string (by decide), fun closing hc => ?_⟩
  have within : .string ∈ Expected.itemsOr closing ∧ .string ≠ closing := by
    revert closing
    decide
  exact ⟨match?_string string within.1, within.2⟩

theorem level_le (op : BinaryOp) : op.level ≤ 5 := by cases op <;> decide

/-- What is written begins with a token with which an expression may begin; where only what stands after an operand
binds as tightly as needed, that is no operator. -/
theorem Writes.begins {n : Nat} {e : Expr} {ts : List (Terminal × List Char)} (h : Writes n e ts) :
    ∃ t us, ts = t :: us ∧ Begins t ∧ (n = 7 → t.1 ≠ .bang ∧ t.1 ≠ .minus) := by
  induction h with
  | paren => exact ⟨_, _, rfl, begins_token (by decide), fun _ => by decide⟩
  | binary level _ _ ih =>
    obtain ⟨t, us, rfl, begins, -⟩ := ih
    exact ⟨t, _, rfl, begins, fun h => absurd (h ▸ level) (by have := level_le ‹_›; omega)⟩
  | @unary n op _ _ _ level =>
    refine ⟨_, _, rfl, begins_token ?_, fun h => absurd (h ▸ level) (by decide)⟩
    cases op <;> decide
  | member _ _ ih =>
    obtain ⟨t, us, rfl, begins, other⟩ := ih
    exact ⟨t, _, rfl, begins, fun _ => other rfl⟩
  | index _ _ ih =>
    obtain ⟨t, us, rfl, begins, other⟩ := ih
    exact ⟨t, _, rfl, begins, fun _ => other rfl⟩
  | method _ _ _ ih =>
    obtain ⟨t, us, rfl, begins, other⟩ := ih
    exact ⟨t, _, rfl, begins, fun _ => other rfl⟩
  | call word other => exact ⟨_, _, rfl, begins_word word other, fun _ => ⟨nofun, nofun⟩⟩
  | array => exact ⟨_, _, rfl, begins_token (by decide), fun _ => by decide⟩
  | number number => exact ⟨_, _, rfl, begins_number number, fun _ => ⟨nofun, nofun⟩⟩
  | string string => exact ⟨_, _, rfl, begins_string string, fun _ => ⟨nofun, nofun⟩⟩
  | @boolean _ value => cases value <;> exact ⟨_, _, rfl, begins_token (by decide), fun _ => by decide⟩
  | name word other => exact ⟨_, _, rfl, begins_word word other, fun _ => ⟨nofun, nofun⟩⟩
  | this => exact ⟨_, _, rfl, begins_token (by decide), fun _ => by decide⟩

/-- A token that may follow an operand, and before which one of a level ends. -/
structure Follows (n : Nat) (t : Terminal × List Char) : Prop where
  operand : match? Expected.afterOperand t.2 = some (t.1, t.2.length)
  name : match? Expected.afterName t.2 = some (t.1, t.2.length)
  call : t.1 ≠ .openParen
  access : n ≤ 7 → t.1 ≠ .dot ∧ t.1 ≠ .openBracket
  operator : ∀ op, Reader.binaryOp? t.1 = some op → op.level < n

theorem Follows.mono {n m : Nat} {t : Terminal × List Char} (h : Follows n t) (le : n ≤ m) : Follows m t :=
  ⟨h.operand, h.name, h.call, fun upper => h.access (Nat.le_trans le upper),
    fun op is => Nat.lt_of_lt_of_le (h.operator op is) le⟩

/-- The tokens that are no operators and follow an operand. -/
theorem follows_token {n : Nat} {t : Terminal}
    (h : t ∈ [Terminal.comma, .semicolon, .closeParen, .closeBracket, .dot, .openBracket])
    (access : n ≤ 7 → t ≠ .dot ∧ t ≠ .openBracket) : Follows n t.token := by
  have all : ∀ t ∈ [Terminal.comma, .semicolon, .closeParen, .closeBracket, .dot, .openBracket],
      match? Expected.afterOperand t.token.2 = some (t, t.token.2.length) ∧
      match? Expected.afterName t.token.2 = some (t, t.token.2.length) ∧
      t ≠ .openParen ∧ Reader.binaryOp? t = none := by
    decide
  obtain ⟨operand, name, call, none⟩ := all t h
  exact ⟨operand, name, call, access, fun op is => absurd (none.symm.trans is) nofun⟩

theorem binaryOp?_terminal (op : BinaryOp) : Reader.binaryOp? op.terminal = some op := by cases op <;> rfl

theorem follows_operator (op : BinaryOp) : Follows (op.level + 1) op.terminal.token := by
  have all : match? Expected.afterOperand op.terminal.token.2 = some (op.terminal, op.terminal.token.2.length) ∧
      match? Expected.afterName op.terminal.token.2 = some (op.terminal, op.terminal.token.2.length) ∧
      op.terminal ≠ .openParen ∧ op.terminal ≠ .dot ∧ op.terminal ≠ .openBracket := by
    cases op <;> decide
  obtain ⟨operand, name, call, access⟩ := all
  refine ⟨operand, name, call, fun _ => access, fun other is => ?_⟩
  obtain rfl : op = other := Option.some.inj ((binaryOp?_terminal op).symm.trans is)
  exact Nat.lt_succ_self _

end Expr

namespace Reader

open Covenant.Expr

variable {n : Nat} {e : Expr} {ts : List (Terminal × List Char)} {next : Terminal × List Char}
  {more : List (Terminal × List Char)} {v v' : Terminal × List Char × List Char} {rest : List Char} {c : Expr}

/-- The reader of what operators of a level stand between, before or after. -/
def atLevel (n fuel : Nat) : Reader Expr :=
  if n < 6 then binary fuel n else if n = 6 then unary fuel else access fuel

/-- The reader of what follows a first operand of a level. -/
def restAt (n line : Nat) (e : Expr) (fuel : Nat) : Reader Expr :=
  if n < 6 then binaryFrom fuel n line e else if n = 6 then return e else accessFrom fuel line e

theorem atLevel_of_lt (lower : n < 6) : atLevel n = fun fuel => binary fuel n := funext fun _ => if_pos lower

theorem restAt_of_lt (lower : n < 6) (line : Nat) (e : Expr) :
    restAt n line e = fun fuel => binaryFrom fuel n line e := funext fun _ => if_pos lower

theorem binary_lower (lower : n < 6) (fuel : Nat) : binary (fuel + 1) n = (do
    let line ← currentLine
    let left ← binary fuel (n + 1)
    binaryFrom fuel n line left) := by
  rw [binary, if_pos (show n < levels from lower)]

theorem binary_highest (fuel : Nat) : binary (fuel + 1) 6 = unary fuel := by
  rw [binary, if_neg (show ¬ 6 < levels by decide)]

/-- Operands of the levels of operators are read by one reader. -/
theorem reads_binary (le : n ≤ 6) (h : Reads Expr.bare (atLevel n) v c v') :
    Reads Expr.bare (fun fuel => binary fuel n) v c v' := by
  rcases Nat.lt_or_eq_of_le le with lower | rfl
  · exact atLevel_of_lt lower ▸ h
  · exact .succ (fun m => binary_highest m) h

/-- No access is read before another token. -/
theorem reads_accessFrom_none (line : Nat) (follows : Follows 7 next) (here : v.1 = next.1)
    (h : Reads Expr.bare (fun _ => pure e) v c v') : Reads Expr.bare (fun fuel => accessFrom fuel line e) v c v' := by
  obtain ⟨dot, bracket⟩ := follows.access (Nat.le_refl 7)
  refine .succ (fun m => by rw [accessFrom]) (.current here ?_)
  cases known : next.1
  case dot => exact absurd known dot
  case openBracket => exact absurd known bracket
  all_goals exact h

/-- Nothing more is read where a token of another level follows. -/
theorem reads_restAt_none (le : n ≤ 7) (line : Nat) (follows : Follows n next) (here : v.1 = next.1)
    (same : e.bare = c) : Reads Expr.bare (restAt n line e) v c v := by
  rcases Nat.lt_trichotomy n 6 with lower | rfl | upper
  · rw [restAt_of_lt lower]
    refine .succ (fun m => by rw [binaryFrom]) (.current here ?_)
    cases operator : binaryOp? next.1 with
    | none => exact .pure same
    | some op => exact .no (Nat.ne_of_lt (follows.operator op operator)) (.pure same)
  · exact .pure same
  · obtain rfl : n = 7 := Nat.le_antisymm le upper
    exact reads_accessFrom_none line follows here (.pure same)

/-- Where tokens of an expression are ahead and then one that may follow it, reading goes on after them as if the
expression had been read as the first operand of a level. -/
def ReadAs (n : Nat) (e : Expr) (ts : List (Terminal × List Char)) : Prop :=
  ∀ next more v rest, Ahead (ts ++ next :: more) v rest → Follows (n + 1) next →
    ∃ v₁, Ahead (next :: more) v₁ rest ∧ ∀ c v',
      (∀ line e', e'.bare = e.bare → Reads Expr.bare (restAt n line e') v₁ c v') →
      Reads Expr.bare (atLevel n) v c v'

namespace ReadAs

/-- The expression is read as a whole. -/
theorem whole (h : ReadAs n e ts) (le : n ≤ 7) (ahead : Ahead (ts ++ next :: more) v rest) (follows : Follows n next) :
    ∃ v₁, Ahead (next :: more) v₁ rest ∧ Reads Expr.bare (atLevel n) v e.bare v₁ := by
  obtain ⟨v₁, ahead₁, reads⟩ := h next more v rest ahead (follows.mono (Nat.le_succ n))
  exact ⟨v₁, ahead₁, reads _ _ fun line _ same => reads_restAt_none le line follows ahead₁.1 same⟩

/-- What is read at a level is read where operators may bind less tightly. -/
theorem looser (h : ReadAs (n + 1) e ts) (lower : n < 6) : ReadAs n e ts := by
  intro next more v rest ahead follows
  obtain ⟨v₁, ahead₁, first⟩ := h.whole (by omega) ahead follows
  refine ⟨v₁, ahead₁, fun c v' after => ?_⟩
  rw [atLevel_of_lt lower]
  refine .succ (fun m => binary_lower lower m) (.line fun line =>
    (reads_binary lower first).bind fun left same => ?_)
  exact restAt_of_lt lower line left ▸ after line left same

theorem loosest {m : Nat} (h : ReadAs m e ts) (le : n ≤ m) (highest : m ≤ 6) : ReadAs n e ts := by
  induction le using Nat.decreasingInduction with
  | self => exact h
  | of_succ k lower ih => exact ih.looser (Nat.lt_of_lt_of_le lower highest)

/-- No operator is read before an operand that begins with none. -/
theorem plain (h : ReadAs 7 e ts) {t : Terminal × List Char} {us : List (Terminal × List Char)} (starts : ts = t :: us)
    (other : t.1 ≠ .bang ∧ t.1 ≠ .minus) : ReadAs 6 e ts := by
  intro next more v rest ahead follows
  obtain ⟨v₁, ahead₁, reads⟩ := h next more v rest ahead (follows.mono (Nat.le_succ 7))
  refine ⟨v₁, ahead₁, fun c v' after => ?_⟩
  have first : Reads Expr.bare access v c v' :=
    reads c v' fun line e' same => reads_accessFrom_none line follows ahead₁.1 (after line e' same)
  subst starts
  refine .succ (x := unary) (fun m => by rw [unary]) (.line fun line => .current ahead.1 ?_)
  cases known : t.1
  case bang => exact absurd known other.1
  case minus => exact absurd known other.2
  all_goals exact first

/-- What is read with what stands after operands is read at each level. -/
theorem ofAccess (h : ReadAs 7 e ts) (written : Writes 7 e ts) (le : n ≤ 7) : ReadAs n e ts := by
  rcases Nat.lt_or_eq_of_le le with lower | rfl
  · obtain ⟨t, us, starts, -, other⟩ := written.begins
    exact (h.plain starts (other rfl)).loosest (Nat.le_of_lt_succ lower) (Nat.le_refl 6)
  · exact h

/-- What is read as an operand is one of what may stand before an access. -/
theorem ofPrimary (h : ∀ next more v rest, Ahead (ts ++ next :: more) v rest → Follows 8 next →
      ∃ v₁, Ahead (next :: more) v₁ rest ∧ Reads Expr.bare primary v e.bare v₁) : ReadAs 7 e ts := by
  intro next more v rest ahead follows
  obtain ⟨v₁, ahead₁, first⟩ := h next more v rest ahead follows
  refine ⟨v₁, ahead₁, fun c v' after => ?_⟩
  have goes (line : Nat) (e' : Expr) (same : e'.bare = e.bare) :
      Reads Expr.bare (fun fuel => accessFrom fuel line e') v₁ c v' := after line e' same
  exact .succ (x := access) (fun m => by rw [access]) (.line fun line => first.bind fun e' same => goes line e' same)

end ReadAs

/-! ## Items -/

/-- The first token of an expression is found where an operand is expected. -/
theorem next_operand {t : Terminal × List Char} (written : Writes n e ts) (ahead : Ahead (t :: (ts ++ more)) v rest) :
    ∃ v₁, lexed Expected.operand v.2.2 = some v₁ ∧ Ahead (ts ++ more) v₁ rest := by
  obtain ⟨first, us, rfl, begins, -⟩ := written.begins
  exact ahead.next _ begins.operand

variable {closing : Terminal} {parts : List (Expr × List (Terminal × List Char))}

/-- An item is read before more items or their end. -/
theorem reads_item (closes : closing ∈ [Terminal.closeParen, .closeBracket]) (h : ReadAs 0 e ts)
    (parts : List (List (Terminal × List Char)))
    (ahead : Ahead (ts ++ (further parts ++ closing.token :: more)) v rest) :
    ∃ v₁, Ahead (further parts ++ closing.token :: more) v₁ rest ∧
      Reads Expr.bare (fun m => binary m 0) v e.bare v₁ := by
  have within : ∀ t ∈ [Terminal.closeParen, .closeBracket],
      t ∈ [Terminal.comma, .semicolon, .closeParen, .closeBracket, .dot, .openBracket] ∧
      t ≠ .dot ∧ t ≠ .openBracket := by
    decide
  obtain ⟨known, other⟩ := within closing closes
  obtain ⟨v₁, ahead₁, reads⟩ : ∃ v₁, Ahead (further parts ++ closing.token :: more) v₁ rest ∧
      Reads Expr.bare (atLevel 0) v e.bare v₁ := by
    cases parts with
    | nil => exact h.whole (Nat.zero_le 7) ahead (follows_token known fun _ => other)
    | cons us parts => exact h.whole (Nat.zero_le 7) ahead (follows_token (by decide) fun _ => by decide)
  exact ⟨v₁, ahead₁, reads_binary (Nat.zero_le 6) reads⟩

/-- What is read after the first item. -/
theorem reads_itemsFrom (closes : closing ∈ [Terminal.closeParen, .closeBracket])
    (written : ∀ p ∈ parts, Writes 0 p.1 p.2) (each : ∀ p ∈ parts, ReadAs 0 p.1 p.2)
    (ahead : Ahead (further (parts.map Prod.snd) ++ closing.token :: more) v rest) :
    ∃ v₁, Ahead (closing.token :: more) v₁ rest ∧
      Reads Expr.bareAll itemsFrom v (Expr.bareAll (parts.map Prod.fst)) v₁ := by
  induction parts generalizing v with
  | nil =>
    have other : closing ≠ .comma := by
      rintro rfl
      revert closes
      decide
    exact ⟨v, ahead, .succ (fun m => by rw [itemsFrom]) (.current ahead.1 (.no other (.pure rfl)))⟩
  | cons p parts ih =>
    rw [List.forall_mem_cons] at written each
    rw [List.map_cons, further, List.cons_append, List.cons_append, List.append_assoc] at ahead
    obtain ⟨v₁, lexed₁, ahead₁⟩ := next_operand written.1 ahead
    obtain ⟨v₂, ahead₂, item⟩ := reads_item closes each.1 _ ahead₁
    obtain ⟨v₃, ahead₃, items⟩ := ih written.2 each.2 ahead₂
    exact ⟨v₃, ahead₃, .succ (fun m => by rw [itemsFrom]) (.current ahead.1 (.yes rfl (.taking lexed₁ fun _ _ =>
      item.bind fun e same => items.bind fun others same' => .pure (congrArg₂ List.cons same same' :
        bareAll (e :: others) = bareAll ((p :: parts).map Prod.fst)))))⟩

/-- Items are read after what opens them, up to what closes them. -/
theorem reads_items {t : Terminal × List Char} (closes : closing ∈ [Terminal.closeParen, .closeBracket])
    (written : ∀ p ∈ parts, Writes 0 p.1 p.2) (each : ∀ p ∈ parts, ReadAs 0 p.1 p.2)
    (ahead : Ahead (t :: (commas (parts.map Prod.snd) ++ closing.token :: more)) v rest) :
    ∃ v₁ v₂, lexed (Expected.itemsOr closing) v.2.2 = some v₁ ∧ Ahead (closing.token :: more) v₂ rest ∧
      Reads Expr.bareAll (fun m => items m closing) v₁ (Expr.bareAll (parts.map Prod.fst)) v₂ := by
  cases parts with
  | nil =>
    have found : ∀ t ∈ [Terminal.closeParen, .closeBracket],
        match? (Expected.itemsOr t) t.token.2 = some (t, t.token.2.length) := by
      decide
    obtain ⟨v₁, lexed₁, ahead₁⟩ := ahead.next _ (found closing closes)
    exact ⟨v₁, v₁, lexed₁, ahead₁, .succ (fun m => by rw [items]) (.current ahead₁.1 (.yes rfl (.pure rfl)))⟩
  | cons p parts =>
    rw [List.forall_mem_cons] at written each
    rw [List.map_cons, commas, List.append_assoc] at ahead
    obtain ⟨first, us, starts, begins, -⟩ := written.1.begins
    obtain ⟨found, other⟩ := begins.item closing closes
    rw [starts, List.cons_append] at ahead
    obtain ⟨v₁, lexed₁, ahead₁⟩ := ahead.next _ found
    have here : v₁.1 = first.1 := ahead₁.1
    rw [← List.cons_append, ← starts] at ahead₁
    obtain ⟨v₂, ahead₂, item⟩ := reads_item closes each.1 _ ahead₁
    obtain ⟨v₃, ahead₃, items⟩ := reads_itemsFrom closes written.2 each.2 ahead₂
    exact ⟨v₁, v₃, lexed₁, ahead₃, .succ (fun m => by rw [Reader.items]) (.current here (.no other
      (item.bind fun e same => items.bind fun others same' => .pure (congrArg₂ List.cons same same' :
        bareAll (e :: others) = bareAll ((p :: parts).map Prod.fst)))))⟩

/-! ## The forms of expressions -/

namespace ReadAs

variable {left right object operand place : Expr} {text : String} {line : Nat} {us : List (Terminal × List Char)}
  {op : BinaryOp}

theorem paren (inner : Writes 0 e ts) (h : ReadAs 0 e ts) :
    ReadAs 7 e (Terminal.openParen.token :: ts ++ [Terminal.closeParen.token]) := by
  refine .ofPrimary fun next more v rest ahead follows => ?_
  rw [List.cons_append, List.cons_append, List.append_assoc] at ahead
  obtain ⟨v₁, lexed₁, ahead₁⟩ := next_operand inner ahead
  obtain ⟨v₂, ahead₂, whole⟩ := h.whole (Nat.zero_le 7) ahead₁ (follows_token (by decide) fun _ => by decide)
  obtain ⟨v₃, lexed₃, ahead₃⟩ := ahead₂.next _ follows.operand
  refine ⟨v₃, ahead₃, .succ (fun m => by rw [primary]) (.line fun line => .current ahead.1 ?_)⟩
  exact .taking lexed₁ fun _ _ => (reads_binary (Nat.zero_le 6) whole).bind fun e' same =>
    .expecting ahead₂.1 lexed₃ fun _ _ => .pure same

/-- The operators of a level group to the left: what has been read before one is its first operand. -/
theorem binary (second : Writes (op.level + 1) right us) (h : ReadAs op.level left ts)
    (h' : ReadAs (op.level + 1) right us) :
    ReadAs op.level (.binary op left right line) (ts ++ op.terminal.token :: us) := by
  intro next more v rest ahead follows
  have lower : op.level < 6 := Nat.lt_succ_of_le (level_le op)
  rw [List.append_assoc, List.cons_append] at ahead
  obtain ⟨v₁, ahead₁, reads⟩ := h _ _ v rest ahead (follows_operator op)
  obtain ⟨v₂, lexed₂, ahead₂⟩ := next_operand second ahead₁
  obtain ⟨v₃, ahead₃, whole⟩ := h'.whole (Nat.le_succ_of_le lower) ahead₂ follows
  refine ⟨v₃, ahead₃, fun c v' after => reads c v' fun line left' same => ?_⟩
  rw [restAt_of_lt lower]
  refine .succ (fun m => by rw [binaryFrom]) (.current ahead₁.1 ?_)
  simp only [Terminal.token, binaryOp?_terminal, if_true]
  refine .taking lexed₂ fun _ _ => (reads_binary lower whole).bind fun right' same' => ?_
  exact restAt_of_lt lower line _ ▸ after line (.binary op left' right' line) (by simp only [bare, same, same'])

theorem unary {op : UnaryOp} (inner : Writes 6 operand ts) (h : ReadAs 6 operand ts) :
    ReadAs 6 (.unary op operand line) (op.terminal.token :: ts) := by
  intro next more v rest ahead follows
  obtain ⟨v₁, lexed₁, ahead₁⟩ := next_operand inner ahead
  obtain ⟨v₂, ahead₂, reads⟩ := h _ _ v₁ rest ahead₁ follows
  have whole : Reads Expr.bare Reader.unary v₁ operand.bare v₂ := reads _ _ fun _ _ same => .pure same
  refine ⟨v₂, ahead₂, fun c v' after => ?_⟩
  refine .succ (x := Reader.unary) (fun m => by rw [Reader.unary]) (.line fun line => .current ahead.1 ?_)
  have goes (operand' : Expr) (same : operand'.bare = operand.bare) :
      Reads Expr.bare (fun _ => pure (.unary op operand' line)) v₂ c v' :=
    after line (.unary op operand' line) (by simp only [bare, same])
  cases op <;> exact .taking lexed₁ fun _ _ => whole.bind goes

theorem member (word : IsWord text.toList) (h : ReadAs 7 object ts) :
    ReadAs 7 (.member object text line) (ts ++ [Terminal.dot.token, (.name, text.toList)]) := by
  intro next more v rest ahead follows
  rw [List.append_assoc] at ahead
  obtain ⟨v₁, ahead₁, reads⟩ := h _ _ v rest ahead (follows_token (by decide) fun upper => absurd upper (by decide))
  obtain ⟨v₂, lexed₂, ahead₂⟩ := ahead₁.next [.name] (match?_name word)
  obtain ⟨v₃, lexed₃, ahead₃⟩ := ahead₂.next _ follows.name
  refine ⟨v₃, ahead₃, fun c v' after => reads c v' fun line object' same => ?_⟩
  refine .succ (x := fun fuel => accessFrom fuel line object') (fun m => by rw [accessFrom]) (.current ahead₁.1 ?_)
  exact .taking lexed₂ fun _ _ => .naming ahead₂.1 ahead₂.2.1 lexed₃ (.current ahead₃.1 (.no follows.call
    (after line (.member object' text line) (by simp only [bare, same]))))

theorem index (within : Writes 0 place us) (h : ReadAs 7 object ts) (h' : ReadAs 0 place us) :
    ReadAs 7 (.index object place line)
      (ts ++ Terminal.openBracket.token :: us ++ [Terminal.closeBracket.token]) := by
  intro next more v rest ahead follows
  rw [List.append_assoc, List.append_assoc, List.cons_append] at ahead
  obtain ⟨v₁, ahead₁, reads⟩ := h _ _ v rest ahead (follows_token (by decide) fun upper => absurd upper (by decide))
  obtain ⟨v₂, lexed₂, ahead₂⟩ := next_operand within ahead₁
  obtain ⟨v₃, ahead₃, whole⟩ := h'.whole (Nat.zero_le 7) ahead₂ (follows_token (by decide) fun _ => by decide)
  obtain ⟨v₄, lexed₄, ahead₄⟩ := ahead₃.next _ follows.operand
  refine ⟨v₄, ahead₄, fun c v' after => reads c v' fun line object' same => ?_⟩
  refine .succ (x := fun fuel => accessFrom fuel line object') (fun m => by rw [accessFrom]) (.current ahead₁.1 ?_)
  exact .taking lexed₂ fun _ _ => (reads_binary (Nat.zero_le 6) whole).bind fun place' same' =>
    .expecting ahead₃.1 lexed₄ fun _ _ => after line (.index object' place' line) (by simp only [bare, same, same'])

/-- A parenthesis after the name of a member opens the arguments of a call. -/
theorem method (word : IsWord text.toList) (written : ∀ p ∈ parts, Writes 0 p.1 p.2) (h : ReadAs 7 object ts)
    (each : ∀ p ∈ parts, ReadAs 0 p.1 p.2) : ReadAs 7 (.method object text (parts.map Prod.fst) line)
      (ts ++ Terminal.dot.token :: (.name, text.toList) :: Terminal.openParen.token ::
        commas (parts.map Prod.snd) ++ [Terminal.closeParen.token]) := by
  intro next more v rest ahead follows
  rw [List.append_assoc, List.append_assoc] at ahead
  obtain ⟨v₁, ahead₁, reads⟩ := h _ _ v rest ahead (follows_token (by decide) fun upper => absurd upper (by decide))
  obtain ⟨v₂, lexed₂, ahead₂⟩ := ahead₁.next [.name] (match?_name word)
  obtain ⟨v₃, lexed₃, ahead₃⟩ := ahead₂.next Expected.afterName (by decide)
  obtain ⟨v₄, v₅, lexed₄, ahead₅, items⟩ := reads_items (by decide) written each ahead₃
  obtain ⟨v₆, lexed₆, ahead₆⟩ := ahead₅.next _ follows.operand
  refine ⟨v₆, ahead₆, fun c v' after => reads c v' fun line object' same => ?_⟩
  refine .succ (x := fun fuel => accessFrom fuel line object') (fun m => by rw [accessFrom]) (.current ahead₁.1 ?_)
  exact .taking lexed₂ fun _ _ => .naming ahead₂.1 ahead₂.2.1 lexed₃ (.current ahead₃.1 (.yes rfl
    (.taking lexed₄ fun _ _ => items.bind fun arguments' same' => .expecting ahead₅.1 lexed₆ fun _ _ =>
    after line (.method object' text arguments' line) (by simp only [bare, same, same']))))

theorem call (written : ∀ p ∈ parts, Writes 0 p.1 p.2) (each : ∀ p ∈ parts, ReadAs 0 p.1 p.2) :
    ReadAs 7 (.call text (parts.map Prod.fst) line) ((.name, text.toList) :: Terminal.openParen.token ::
      commas (parts.map Prod.snd) ++ [Terminal.closeParen.token]) := by
  refine .ofPrimary fun next more v rest ahead follows => ?_
  rw [List.append_assoc] at ahead
  obtain ⟨v₁, lexed₁, ahead₁⟩ := ahead.next Expected.afterName (by decide)
  obtain ⟨v₂, v₃, lexed₂, ahead₃, items⟩ := reads_items (by decide) written each ahead₁
  obtain ⟨v₄, lexed₄, ahead₄⟩ := ahead₃.next _ follows.operand
  refine ⟨v₄, ahead₄, .succ (fun m => by rw [primary]) (.line fun line => .current ahead.1 ?_)⟩
  exact .naming ahead.1 ahead.2.1 lexed₁ (.current ahead₁.1 (.yes rfl (.taking lexed₂ fun _ _ =>
    items.bind fun arguments' same => .expecting ahead₃.1 lexed₄ fun _ _ => .pure (by simp only [bare, same]))))

theorem array (written : ∀ p ∈ parts, Writes 0 p.1 p.2) (each : ∀ p ∈ parts, ReadAs 0 p.1 p.2) :
    ReadAs 7 (.array (parts.map Prod.fst) line)
      (Terminal.openBracket.token :: commas (parts.map Prod.snd) ++ [Terminal.closeBracket.token]) := by
  refine .ofPrimary fun next more v rest ahead follows => ?_
  rw [List.append_assoc] at ahead
  obtain ⟨v₁, v₂, lexed₁, ahead₂, items⟩ := reads_items (by decide) written each ahead
  obtain ⟨v₃, lexed₃, ahead₃⟩ := ahead₂.next _ follows.operand
  refine ⟨v₃, ahead₃, .succ (fun m => by rw [primary]) (.line fun line => .current ahead.1 ?_)⟩
  exact .taking lexed₁ fun _ _ => items.bind fun items' same => .expecting ahead₂.1 lexed₃ fun _ _ =>
    .pure (by simp only [bare, same])

theorem number : ReadAs 7 (.number text line) [(.number, text.toList)] := by
  refine .ofPrimary fun next more v rest ahead follows => ?_
  obtain ⟨v₁, lexed₁, ahead₁⟩ := ahead.next _ follows.operand
  refine ⟨v₁, ahead₁, .succ (fun m => by rw [primary]) (.line fun line => .current ahead.1 ?_)⟩
  exact .taking lexed₁ fun t same => .pure (by rw [same, ahead.2.1, String.ofList_toList]; rfl)

theorem string {value : String} {w : List Char} (is : stringValue w = value.toList) :
    ReadAs 7 (.string value line) [(.string, w)] := by
  refine .ofPrimary fun next more v rest ahead follows => ?_
  obtain ⟨v₁, lexed₁, ahead₁⟩ := ahead.next _ follows.operand
  refine ⟨v₁, ahead₁, .succ (fun m => by rw [primary]) (.line fun line => .current ahead.1 ?_)⟩
  exact .taking lexed₁ fun t same => .pure (by rw [same, ahead.2.1, is, String.ofList_toList]; rfl)

theorem boolean (value : Bool) :
    ReadAs 7 (.boolean value line) [(bif value then Terminal.true_ else .false_).token] := by
  refine .ofPrimary fun next more v rest ahead follows => ?_
  obtain ⟨v₁, lexed₁, ahead₁⟩ := ahead.next _ follows.operand
  refine ⟨v₁, ahead₁, .succ (fun m => by rw [primary]) (.line fun line => .current ahead.1 ?_)⟩
  cases value <;> exact .taking lexed₁ fun _ _ => .pure rfl

theorem this : ReadAs 7 (.this line) [Terminal.this.token] := by
  refine .ofPrimary fun next more v rest ahead follows => ?_
  obtain ⟨v₁, lexed₁, ahead₁⟩ := ahead.next _ follows.operand
  refine ⟨v₁, ahead₁, .succ (fun m => by rw [primary]) (.line fun line => .current ahead.1 ?_)⟩
  exact .taking lexed₁ fun _ _ => .pure rfl

/-- A name is one by itself when no parenthesis follows. -/
theorem name : ReadAs 7 (.name text line) [(.name, text.toList)] := by
  refine .ofPrimary fun next more v rest ahead follows => ?_
  obtain ⟨v₁, lexed₁, ahead₁⟩ := ahead.next _ follows.name
  refine ⟨v₁, ahead₁, .succ (fun m => by rw [primary]) (.line fun line => .current ahead.1 ?_)⟩
  exact .naming ahead.1 ahead.2.1 lexed₁ (.current ahead₁.1 (.no follows.call (.pure rfl)))

end ReadAs

/-- What is written as an expression of a level is read as that expression. -/
theorem readAs_of_writes (written : Writes n e ts) (le : n ≤ 7) : ReadAs n e ts := by
  induction written with
  | paren inner ih => exact .ofAccess (.paren inner (ih (Nat.zero_le 7))) (.paren inner) le
  | @binary n op _ _ _ _ _ level _ second ih ih' =>
    have highest := level_le op
    exact (ReadAs.binary second (ih (by omega)) (ih' (by omega))).loosest level (by omega)
  | unary level inner ih => exact (ReadAs.unary inner (ih (by omega))).loosest level (Nat.le_refl 6)
  | member word inner ih => exact .ofAccess (.member word (ih (Nat.le_refl 7))) (.member word inner) le
  | index inner within ih ih' =>
    exact .ofAccess (.index within (ih (Nat.le_refl 7)) (ih' (Nat.zero_le 7))) (.index inner within) le
  | method word inner each ih ih' =>
    exact .ofAccess (.method word each (ih (Nat.le_refl 7)) fun p hp => ih' p hp (Nat.zero_le 7))
      (.method word inner each) le
  | call word other each ih =>
    exact .ofAccess (.call each fun p hp => ih p hp (Nat.zero_le 7)) (.call word other each) le
  | array each ih => exact .ofAccess (.array each fun p hp => ih p hp (Nat.zero_le 7)) (.array each) le
  | number number => exact .ofAccess .number (.number number) le
  | string string is => exact .ofAccess (.string is) (.string string is) le
  | boolean => exact .ofAccess (.boolean _) .boolean le
  | name word other => exact .ofAccess .name (.name word other) le
  | this => exact .ofAccess .this .this le

/-! ## Declarations of a value -/

theorem reads_optionalType_none (here : v.1 ≠ .colon) :
    Reads (Option.map TypeExpr.bare) optionalType v none v := .current rfl (.no here (.pure rfl))

theorem reads_directives_none (here : v.1 ≠ .at_) : Reads (List.map Directive.bare) directives v [] v :=
  .succ (fun _ => rfl) (.current rfl (.no here (.pure rfl)))

def declaring (ts : List (Terminal × List Char)) : List (Terminal × List Char) :=
  Terminal.let_.token :: (.name, "x".toList) :: Terminal.assign.token :: (ts ++ [Terminal.semicolon.token])

theorem reads_declaring (written : Writes 0 e ts) (ahead : Ahead (declaring ts) v rest)
    (next : lexed Expected.afterStatement rest = some v') :
    Reads Stmt.bare statement v (.declare "x" none e.bare 0) v' := by
  obtain ⟨v₁, lexed₁, ahead₁⟩ := ahead.next [.name] (by decide)
  obtain ⟨v₂, lexed₂, ahead₂⟩ := ahead₁.next Expected.afterLetName (by decide)
  obtain ⟨v₃, lexed₃, ahead₃⟩ := next_operand written ahead₂
  obtain ⟨v₄, ahead₄, whole⟩ := (readAs_of_writes written (Nat.zero_le 7)).whole (Nat.zero_le 7) ahead₃
    (follows_token (by decide) fun _ => by decide)
  obtain rfl : v₄.2.2 = rest := ahead₄.2.2
  have untyped : v₂.1 ≠ .colon := by
    rw [ahead₂.1]
    decide
  refine .succ (fun m => by rw [statement]) (.line fun line => .current ahead.1 ?_)
  exact .taking lexed₁ fun _ _ => .naming ahead₁.1 ahead₁.2.1 lexed₂ ((reads_optionalType_none untyped).bind
    fun t none => .expecting ahead₂.1 lexed₃ fun _ _ => (reads_binary (Nat.zero_le 6) whole).bind fun e' same =>
    .expecting ahead₄.1 next fun _ _ => .pure (by simp only [Stmt.bare, none, same]))

/-- A block of one declaration is read before the end of what it stands in. -/
theorem reads_block (written : Writes 0 e ts) (ahead : Ahead (Terminal.openBrace.token :: (declaring ts ++
      Terminal.closeBrace.token :: Terminal.closeBrace.token :: more)) v rest) :
    ∃ v₁, Ahead (Terminal.closeBrace.token :: more) v₁ rest ∧
      Reads Stmt.bare block v (.block [.declare "x" none e.bare 0] 0) v₁ := by
  obtain ⟨v₁, lexed₁, ahead₁⟩ := ahead.next Expected.inBlock (by decide)
  obtain ⟨m, ahead₁, stand⟩ := ahead₁.split
  obtain ⟨v₂, lexed₂, ahead₂⟩ := exists_ahead Expected.afterStatement (by decide) stand
  obtain ⟨v₃, lexed₃, ahead₃⟩ := ahead₂.next Expected.afterBlock (by decide)
  have inner : Reads Stmt.bareAll statements v₁ [.declare "x" none e.bare 0] v₂ := by
    have none : Reads Stmt.bareAll statements v₂ [] v₂ :=
      .succ (fun m => by rw [statements]) (.current ahead₂.1 (.yes rfl (.pure rfl)))
    refine .succ (fun m => by rw [statements]) ?_
    have within : Terminal.let_ ≠ .closeBrace := by decide
    refine .current (t := .let_) ahead₁.1 (.no within ?_)
    exact (reads_declaring written ahead₁ lexed₂).bind fun s same => none.bind fun others same' =>
      .pure (congrArg₂ List.cons same same' : Stmt.bareAll (s :: others) = _)
  refine ⟨v₃, ahead₃, .succ (fun m => by rw [block]) (.line fun line => .expecting (t := .openBrace) ahead.1 lexed₁
    fun _ _ => ?_)⟩
  exact inner.bind fun statements same => .expecting (t := .closeBrace) ahead₂.1 lexed₃ fun _ _ =>
    .pure (by simp only [Stmt.bare, same])

/-- The tokens of a program of one function, with a declaration of a value as its only statement. -/
def framed (ts : List (Terminal × List Char)) : List (Terminal × List Char) :=
  Terminal.contract.token :: (.name, "R".toList) :: Terminal.openBrace.token :: (.name, "f".toList) ::
    Terminal.openParen.token :: Terminal.closeParen.token :: Terminal.openBrace.token :: (declaring ts ++
      [Terminal.closeBrace.token, Terminal.closeBrace.token])

/-- The function is read. -/
theorem reads_member (written : Writes 0 e ts) (ahead : Ahead ((.name, "f".toList) :: Terminal.openParen.token ::
      Terminal.closeParen.token :: Terminal.openBrace.token :: (declaring ts ++
      [Terminal.closeBrace.token, Terminal.closeBrace.token])) v rest) :
    ∃ v₁, Ahead [Terminal.closeBrace.token] v₁ rest ∧ Reads (Sum.map FieldDecl.bare FunctionDecl.bare) member v
      (.inr ⟨"f", [], none, .block [.declare "x" none e.bare 0] 0, [], false, 0⟩) v₁ := by
  obtain ⟨v₁, lexed₁, ahead₁⟩ := ahead.next Expected.afterMemberName (by decide)
  obtain ⟨v₂, lexed₂, ahead₂⟩ := ahead₁.next Expected.parametersOrEnd (by decide)
  obtain ⟨v₃, lexed₃, ahead₃⟩ := ahead₂.next Expected.afterParameters (by decide)
  obtain ⟨v₄, ahead₄, body⟩ := reads_block written ahead₃
  have here : v.1 ≠ .at_ ∧ v₃.1 ≠ .colon ∧ Terminal.openParen ≠ .colon := by
    rw [ahead.1, ahead₃.1]
    decide
  have parameters : Reads (List.map Parameter.bare) (fun m => parameters m Expected.afterParameters) v₁ [] v₃ :=
    .expecting (t := .openParen) ahead₁.1 lexed₂ fun _ _ => .current ahead₂.1 (.yes rfl
      (.expecting (t := .closeParen) ahead₂.1 lexed₃ fun _ _ => .pure rfl))
  have named : v.2.1 = "f".toList := ahead.2.1
  refine ⟨v₄, ahead₄, (reads_directives_none here.1).bind fun ds none => .line fun line =>
    .current (t := .name) ahead.1 ?_⟩
  refine .naming ahead.1 named lexed₁ (.current (t := .openParen) ahead₁.1 (.no here.2.2 ?_))
  have function : Reads FunctionDecl.bare (fun m => functionFrom m ds "f" line) v₁
      ⟨"f", [], Option.none, .block [.declare "x" Option.none e.bare 0] 0, [], false, 0⟩ v₄ :=
    parameters.bind fun ps empty => (reads_optionalType_none here.2.1).bind fun t untyped => body.bind fun b same =>
      .pure (by simp only [FunctionDecl.bare, none, empty, untyped, same])
  exact function.bind fun f same => .pure (congrArg Sum.inr same)

theorem reads_record (written : Writes 0 e ts) (ahead : Ahead (framed ts) v []) :
    Reads RecordDecl.bare record v
      ⟨"R", [], [⟨"f", [], none, .block [.declare "x" none e.bare 0] 0, [], false, 0⟩], [], 0⟩
      (.endOfText, [], []) := by
  obtain ⟨v₁, lexed₁, ahead₁⟩ := ahead.next [.name] (by decide)
  obtain ⟨v₂, lexed₂, ahead₂⟩ := ahead₁.next [.openBrace] (by decide)
  obtain ⟨v₃, lexed₃, ahead₃⟩ := ahead₂.next Expected.member (by decide)
  obtain ⟨v₄, ahead₄, member⟩ := reads_member written ahead₃
  have ended : lexed Expected.declaration v₄.2.2 = some (.endOfText, [], []) := by
    rw [show v₄.2.2 = [] from ahead₄.2.2, lexed, afterLayout_of_none rfl]
  have none : Reads bareMembers members v₄ ([], []) v₄ :=
    .succ (fun _ => rfl) (.current ahead₄.1 (.yes rfl (.pure rfl)))
  have others : Reads bareMembers members v₃
      ([], [⟨"f", [], Option.none, .block [.declare "x" Option.none e.bare 0] 0, [], false, 0⟩]) v₄ := by
    refine .succ (fun _ => rfl) ?_
    have within : Terminal.name ≠ .closeBrace := by decide
    refine .current (t := .name) ahead₃.1 (.no within (member.bind fun first same => none.bind fun found empty => ?_))
    cases first with
    | inl field => cases same
    | inr function =>
      obtain ⟨fields, functions⟩ := Prod.mk.inj empty
      exact .pure (by simp only [bareMembers, List.map_cons, fields, functions, Sum.inr.inj same])
  have here : v.1 ≠ .at_ := by
    rw [ahead.1]
    decide
  refine .line fun line => (reads_directives_none here).bind fun ds plain => .current (t := .contract) ahead.1 ?_
  have named : v₁.2.1 = "R".toList := ahead₁.2.1
  refine .taking lexed₁ fun _ _ => .naming ahead₁.1 named lexed₂ ?_
  refine .expecting (t := .openBrace) ahead₂.1 lexed₃ fun _ _ => others.bind fun found same => ?_
  obtain ⟨fields, functions⟩ := Prod.mk.inj same
  exact .expecting (t := .closeBrace) ahead₄.1 ended fun _ _ =>
    .pure (by simp only [RecordDecl.bare, plain, fields, functions])

end Reader

namespace Lexeme

variable {ts : List (Terminal × List Char)}

theorem stops_nil : Stops [] := nofun

theorem stops_cons {c : Char} (h : c = ' ' ∨ c = ';') (u : List Char) : Stops (c :: u) := by
  rintro _ ⟨⟩
  exact h

theorem stand_value {after : List Char} (stops : Stops after) (ts : List (Terminal × List Char)) :
    Stand (ts ++ [Terminal.semicolon.token]) (spaced ts (';' :: after)) after :=
  stand_append.mpr ⟨_, stand_spaced (stops_cons (.inr rfl) _) ts, _, standsAt_append stops _ [';'], rfl⟩

theorem stand_declaring {after : List Char} (stops : Stops after) (ts : List (Terminal × List Char)) :
    Stand (Reader.declaring ts).tail (' ' :: 'x' :: ' ' :: '=' :: spaced ts (';' :: after)) after := by
  have words : [' ', 'x', ' ', '='] = spaced [(.name, "x".toList), Terminal.assign.token] [] := by decide +kernel
  have first := stand_spaced (stops_spaced (stops_cons (.inr rfl) after) ts)
    [(.name, "x".toList), Terminal.assign.token]
  rw [spaced_eq, ← words] at first
  exact stand_append.mpr ⟨_, first, stand_value stops ts⟩

end Lexeme

namespace Program

open Lexeme Covenant.Expr

/-- The program of one function whose only statement gives a value a name. -/
def ofValue (e : Expr) : Program :=
  [⟨"R", [], [⟨"f", [], none, .block [.declare "x" none e 0] 0, [], false, 0⟩], [], 0⟩]

def valueText (ts : List (Terminal × List Char)) : List Char :=
  "contract R \x7b f ( ) \x7b let x =".toList ++ spaced ts "; \x7d \x7d".toList

def beforeValue : List (Terminal × List Char) :=
  [(.name, "R".toList), Terminal.openBrace.token, (.name, "f".toList), Terminal.openParen.token,
    Terminal.closeParen.token, Terminal.openBrace.token, Terminal.let_.token, (.name, "x".toList),
    Terminal.assign.token]

def afterValue : List (Terminal × List Char) := [Terminal.closeBrace.token, Terminal.closeBrace.token]

theorem valueText_eq (ts : List (Terminal × List Char)) : valueText ts =
    Terminal.contract.token.2 ++ spaced beforeValue (spaced ts (';' :: spaced afterValue [])) := by
  have opening : "contract R \x7b f ( ) \x7b let x =".toList =
      Terminal.contract.token.2 ++ spaced beforeValue [] := by
    decide +kernel
  have closing : "; \x7d \x7d".toList = ';' :: spaced afterValue [] := by decide +kernel
  rw [spaced_eq beforeValue, ← List.append_assoc, ← opening, ← closing]
  rfl

theorem valueText_congr {ts ts' : List (Terminal × List Char)} (same : spaced ts [] = spaced ts' []) :
    valueText ts = valueText ts' := by
  have tail (rest : List Char) : spaced ts rest = spaced ts' rest := by rw [spaced_eq, same, ← spaced_eq]
  exact congrArg (_ ++ ·) (tail _)

theorem framed_eq (ts : List (Terminal × List Char)) : Reader.framed ts =
    Terminal.contract.token :: (beforeValue ++ (ts ++ [Terminal.semicolon.token] ++ afterValue)) := by
  simp only [Reader.framed, Reader.declaring, beforeValue, afterValue, List.cons_append, List.nil_append]

theorem stand_framed (ts : List (Terminal × List Char)) : Stand (Reader.framed ts) (valueText ts) [] := by
  have stops : Stops (spaced ts (';' :: spaced afterValue [])) := stops_spaced (stops_cons (.inr rfl) _) ts
  have rest : Stand (ts ++ [Terminal.semicolon.token] ++ afterValue) (spaced ts (';' :: spaced afterValue [])) [] :=
    stand_append.mpr ⟨_, stand_value (stops_spaced stops_nil _) ts, stand_spaced stops_nil _⟩
  rw [framed_eq, valueText_eq]
  exact ⟨_, standsAt_append (stops_spaced stops _) _ _, stand_append.mpr ⟨_, stand_spaced stops _, rest⟩⟩

theorem read_valueText {e : Expr} {ts : List (Terminal × List Char)} (written : Writes 0 e ts) :
    ∃ program, read (String.ofList (valueText ts)) = .ok program ∧ program.bare = ofValue e.bare := by
  obtain ⟨v, lexed, ahead⟩ := exists_ahead Expected.declaration (by decide) (stand_framed ts)
  have reads : Reader.Reads Program.bare Reader.records v (ofValue e.bare) (.endOfText, [], []) := by
    have none : Reader.Reads Program.bare Reader.records (.endOfText, [], []) [] (.endOfText, [], []) :=
      .succ (fun _ => rfl) (.current rfl (.yes rfl (.pure rfl)))
    refine .succ (fun _ => rfl) ?_
    have within : Terminal.contract ≠ .endOfText := by decide
    refine .current (t := .contract) ahead.1 (.no within ?_)
    exact (Reader.reads_record written ahead).bind fun first same => none.bind fun others same' =>
      .pure (congrArg₂ List.cons same same')
  obtain ⟨terminal, w, after⟩ := v
  obtain ⟨first, place, start, rfl, rfl, rfl⟩ :=
    Token.exists_next ⟨valueText ts, 1, 1⟩ lexed ⟨.endOfText, [], 1, 1⟩
  obtain ⟨program, ended, fuel, same, -, runs⟩ := reads ⟨first, place⟩ rfl
  obtain ⟨program', read, same'⟩ := read_of_aligned (.rest _) start (runs fuel (Nat.le_refl fuel))
  exact ⟨program', (congrArg readChars String.toList_ofList).trans read, same'.symm.trans same⟩

end Program

namespace Expr

/-- Expressions are read by precedence: what is written of an expression, with parentheses only where they are needed
or with more of them, is read as that expression where a value is given a name; so no other expression is written
in the same way. -/
theorem read_by_precedence {e : Expr} (writable : e.Writable) :
    Writes 0 e (e.tokens 0) ∧
    (∀ ts, Writes 0 e ts →
      (∀ after v, lexed Expected.afterStatement (' ' :: after) = some v → Reader.Reads Stmt.bare Reader.statement
        (.let_, "let".toList, ' ' :: 'x' :: ' ' :: '=' :: spaced ts (';' :: ' ' :: after))
        (.declare "x" none e.bare 0) v) ∧
      ∃ program, Program.read (String.ofList (Program.valueText ts)) = .ok program ∧
        program.bare = Program.ofValue e.bare) ∧
    ∀ ts e' ts', Writes 0 e ts → Writes 0 e' ts' → spaced ts [] = spaced ts' [] → e'.bare = e.bare := by
  refine ⟨writes_tokens writable 0, fun ts written => ⟨fun after v next => ?_, Program.read_valueText written⟩,
    fun ts e' ts' written written' same => ?_⟩
  · have text : "let".toList = Terminal.let_.token.2 := by decide +kernel
    exact Reader.reads_declaring written ⟨rfl, text, stand_declaring (stops_cons (.inl rfl) after) ts⟩ next
  · obtain ⟨program, read, is⟩ := Program.read_valueText written
    obtain ⟨program', read', is'⟩ := Program.read_valueText written'
    rw [← Program.valueText_congr same, read] at read'
    obtain rfl := Except.ok.inj read'
    have equal := is'.symm.trans is
    simp only [Program.ofValue, List.cons.injEq, RecordDecl.mk.injEq, FunctionDecl.mk.injEq, Stmt.block.injEq,
      Stmt.declare.injEq, and_true, true_and] at equal
    exact equal

/-- Operators of four levels, where the parentheses keep a sum together. -/
theorem mixed_read_by_precedence : ∃ program,
    Program.read "contract R \x7b f ( ) \x7b let x = - ( 1 + 2 ) * a . b [ 0 ] == \"x\"; \x7d \x7d" = .ok program ∧
    program.bare = Program.ofValue (.binary .equal (.binary .mul
      (.unary .negate (.binary .add (.number "1" 0) (.number "2" 0) 0) 0)
      (.index (.member (.name "a" 0) "b" 0) (.number "0" 0) 0) 0) (.string "x" 0) 0) := by
  have writable : Writable (.binary .equal (.binary .mul
      (.unary .negate (.binary .add (.number "1" 0) (.number "2" 0) 0) 0)
      (.index (.member (.name "a" 0) "b" 0) (.number "0" 0) 0) 0) (.string "x" 0) 0) :=
    .binary (.binary (.unary (.binary (.number (by decide +kernel)) (.number (by decide +kernel))))
      (.index (.member (by decide +kernel) (.name (by decide +kernel) (by decide +kernel)))
        (.number (by decide +kernel)))) .string
  have text : Program.valueText (tokens 0 (.binary .equal (.binary .mul
      (.unary .negate (.binary .add (.number "1" 0) (.number "2" 0) 0) 0)
      (.index (.member (.name "a" 0) "b" 0) (.number "0" 0) 0) 0) (.string "x" 0) 0)) =
      "contract R \x7b f ( ) \x7b let x = - ( 1 + 2 ) * a . b [ 0 ] == \"x\"; \x7d \x7d".toList := by
    decide +kernel
  obtain ⟨written, reads, -⟩ := read_by_precedence writable
  obtain ⟨-, program, is, same⟩ := reads _ written
  rw [text, String.ofList_toList] at is
  refine ⟨program, is, same.trans ?_⟩
  simp only [bare]

end Expr

end Covenant
