import Covenant.Proofs.Syntax.Bare
import Covenant.Proofs.Syntax.Members
import Covenant.Proofs.Syntax.Respacing
/-!
Layout does not matter: a text with other blanks and comments between its tokens writes the same program.

* `Reading.Beside`: two places of reading with the same token and aligned texts after it;
* `Reader.Mirrors`: what a reader makes of one place it makes of another one beside it, up to lines, and as soon
  as the fuel suffices for what it takes there; pieces are put together by `Mirrors.bind` and the like;
* `layout_is_immaterial`: so a program survives another layout of its text, and the fuel for a text always
  suffices.
-/

namespace Covenant

open Lexeme (Aligned)

/-- What a token is, wherever it stands. -/
def Token.bare (t : Token) : Terminal × List Char := (t.terminal, t.text)

namespace Reading

/-- The length of the current token and what follows it. -/
def left (r : Reading) : Nat := r.token.text.length + r.place.rest.length

/-- Another place of reading with the same token and a text after it that is aligned. -/
structure Beside (r q : Reading) : Prop where
  token : r.token.bare = q.token.bare
  rest : Aligned r.place.rest q.place.rest
  some : q.token.terminal ≠ .endOfText → q.token.text ≠ []

/-- A division before an asterisk: no operand follows, so nothing can be read from here on. -/
def Stuck (r : Reading) : Prop := r.token.terminal = .divide ∧ ∃ t, r.place.rest = '*' :: t

end Reading

namespace Reader

variable {α β γ δ : Type} {n k : Nat} {known : Terminal → Prop}

/-- What a reader gives where something is known of the terminal, another reader gives at every place beside it,
up to `bare`: when its fuel is at least `n` and sixteen for each character that it takes. It takes at least `k`
of them. -/
def Mirrors (n k : Nat) (known : Terminal → Prop) (bare : α → γ) (x : Reader α) (y : Nat → Reader α) : Prop :=
  ∀ r, known r.token.terminal → ∀ a r', x.run r = .ok (a, r') → (r.Stuck → r'.Stuck) ∧
    ∀ q, r.Beside q → r'.Stuck ∨ ∃ b q', r'.Beside q' ∧ bare a = bare b ∧ q'.left + k ≤ q.left ∧
      ∀ fuel, 16 * q.left + n ≤ fuel + 16 * q'.left → (y fuel).run q = .ok (b, q')

/-- Nothing is known of the terminal. -/
abbrev Any (_ : Terminal) : Prop := True

namespace Mirrors

variable {bare : α → γ} {bare' : β → δ}

theorem pure {a b : α} (h : bare a = bare b) : Mirrors n 0 known bare (Pure.pure a) (fun _ => Pure.pure b) := by
  intro r _ a' r' hr
  cases hr
  exact ⟨id, fun q beside => .inr ⟨b, q, beside, h, Nat.le_refl _, fun _ _ => rfl⟩⟩

theorem unexpected {y : Nat → Reader α} : Mirrors n k known bare Reader.unexpected y := by
  intro r _ a r' hr
  cases hr

theorem any {x : Reader α} {y : Nat → Reader α} (h : Mirrors n k Any bare x y) : Mirrors n k known bare x y :=
  fun r _ => h r trivial

theorem bindKnown {n₁ k₁ : Nat} {x : Reader α} {y : Nat → Reader α} {f : α → Reader β} {g : Nat → α → Reader β}
    (hx : Mirrors n₁ k₁ known bare x y) (le : n₁ ≤ n)
    (hf : ∀ a b, bare a = bare b → Mirrors (n + 16 * k₁) (k - k₁) Any bare' (f a) (fun fuel => g fuel b)) :
    Mirrors n k known bare' (x >>= f) (fun fuel => y fuel >>= g fuel) := by
  intro r hk c r' hr
  rw [StateT.run_bind] at hr
  obtain ⟨⟨a, r₁⟩, ha, hc⟩ := bind_eq_ok.mp hr
  obtain ⟨stuck, first⟩ := hx r hk a r₁ ha
  have rest := (hf a a rfl r₁ trivial c r' hc).1
  refine ⟨fun h => rest (stuck h), fun q beside => ?_⟩
  rcases first q beside with h | ⟨b, q₁, beside₁, same, le₁, runs⟩
  · exact .inl (rest h)
  rcases (hf a b same r₁ trivial c r' hc).2 q₁ beside₁ with h | ⟨d, q', beside', same', le', runs'⟩
  · exact .inl h
  refine .inr ⟨d, q', beside', same', by omega, fun fuel enough => ?_⟩
  rw [StateT.run_bind, runs fuel (by omega)]
  exact runs' fuel (by omega)

theorem bind {n₁ k₁ : Nat} {x : Reader α} {y : Nat → Reader α} {f : α → Reader β} {g : Nat → α → Reader β}
    (hx : Mirrors n₁ k₁ Any bare x y) (le : n₁ ≤ n)
    (hf : ∀ a b, bare a = bare b → Mirrors (n + 16 * k₁) (k - k₁) Any bare' (f a) (fun fuel => g fuel b)) :
    Mirrors n k known bare' (x >>= f) (fun fuel => y fuel >>= g fuel) := bindKnown hx.any le hf

/-- The last piece. -/
theorem last {n₁ k₁ : Nat} {x : Reader α} {y : Nat → Reader α} (h : Mirrors n₁ k₁ Any bare x y) (le : n₁ ≤ n)
    (least : k ≤ k₁) : Mirrors n k known bare x y := by
  intro r _ a r' hr
  obtain ⟨stuck, each⟩ := h r trivial a r' hr
  refine ⟨stuck, fun q beside => (each q beside).imp_right ?_⟩
  rintro ⟨b, q', beside', same, le', runs⟩
  exact ⟨b, q', beside', same, by omega, fun fuel enough => runs fuel (by omega)⟩

theorem ite {p : Prop} [Decidable p] {x x' : Reader α} {y y' : Nat → Reader α}
    (hx : p → Mirrors n k known bare x y) (hx' : ¬ p → Mirrors n k known bare x' y') :
    Mirrors n k known bare (if p then x else x') (fun fuel => if p then y fuel else y' fuel) := by
  split
  next h => exact hx h
  next h => exact hx' h

/-- A reader whose fuel goes down by one. -/
theorem succ {x : Reader α} {y body : Nat → Reader α} (hy : ∀ fuel, y (fuel + 1) = body fuel)
    (h : Mirrors n k known bare x body) : Mirrors (n + 1) k known bare x y := by
  intro r hk a r' hr
  obtain ⟨stuck, each⟩ := h r hk a r' hr
  refine ⟨stuck, fun q beside => (each q beside).imp_right ?_⟩
  rintro ⟨b, q', beside', same, le, runs⟩
  refine ⟨b, q', beside', same, le, fun fuel enough => ?_⟩
  obtain ⟨fuel, rfl⟩ : ∃ m, fuel = m + 1 := ⟨fuel - 1, by omega⟩
  rw [hy]
  exact runs fuel (by omega)

/-- The current terminal is the same, and then known. -/
theorem current {f : Terminal → Reader α} {g : Nat → Terminal → Reader α}
    (hf : ∀ c, known c → Mirrors n k (· = c) bare (f c) (fun fuel => g fuel c)) :
    Mirrors n k known bare (current >>= f) (fun fuel => Reader.current >>= g fuel) := by
  intro r hk a r' hr
  obtain ⟨stuck, each⟩ := hf r.token.terminal hk r rfl a r' hr
  refine ⟨stuck, fun q beside => (each q beside).imp_right ?_⟩
  rintro ⟨b, q', beside', same, le, runs⟩
  refine ⟨b, q', beside', same, le, fun fuel enough => ?_⟩
  have terminal : r.token.terminal = q.token.terminal := (Prod.mk.inj beside.token).1
  rw [terminal] at runs
  exact runs fuel enough

end Mirrors

theorem run_take_eq_ok {following : List Terminal} {r r' : Reading} {a : Token} :
    (take following).run r = .ok (a, r') ↔
      a = r.token ∧ r.token.next following r.place = .ok (r'.token, r'.place) := by
  rw [take, StateT.run_bind, StateT.run_get, pure_bind]
  obtain ⟨token', place'⟩ := r'
  cases h : r.token.next following r.place with
  | error fault =>
    constructor
    · intro impossible
      cases impossible
    · rintro ⟨-, impossible⟩
      cases impossible
  | ok found =>
    constructor
    · rintro ⟨⟩
      exact ⟨rfl, rfl⟩
    · rintro ⟨rfl, ⟨⟩⟩
      rfl

/-- The next token is the same. Where a division may be current, no asterisk may be expected. -/
theorem mirrors_take {following : List Terminal} (some : ¬ known .endOfText)
    (closed : known .divide → .times ∉ following) :
    Mirrors n 1 known Token.bare (take following) (fun _ => take following) := by
  intro r hk a r' hr
  obtain ⟨rfl, next⟩ := run_take_eq_ok.mp hr
  have lexed := Token.lexed_of_next next
  refine ⟨?_, fun q beside => ?_⟩
  · rintro ⟨division, t, asterisk⟩
    rw [division] at hk
    rw [asterisk] at lexed
    exact absurd (Lexeme.times_of_lexed lexed) (closed hk)
  obtain ⟨terminal, text⟩ := Prod.mk.inj beside.token
  rcases beside.rest.lexed lexed with ⟨rest', lexed', aligned⟩ | stuck
  · obtain ⟨t, place, next', terminal', text', rfl⟩ := Token.exists_next _ lexed' q.token
    obtain ⟨within, some'⟩ := Lexeme.length_of_lexed lexed'
    refine .inr ⟨q.token, ⟨t, place⟩, ⟨?_, aligned, ?_⟩, beside.token, ?_, fun _ _ => ?_⟩
    · rw [Token.bare, Token.bare, terminal', text']
    · rw [terminal', text']
      exact some'
    · have one : 0 < q.token.text.length := by
        refine List.length_pos_of_ne_nil (beside.some fun ended => some ?_)
        rw [← ended, ← terminal]
        exact hk
      rw [← text'] at within
      simp only [Reading.left]
      omega
    · exact run_take_eq_ok.mpr ⟨rfl, next'⟩
  · exact .inl stuck

namespace Mirrors

variable {bare : α → γ}

/-- The line may be another one. -/
theorem line {f : Nat → Reader α} {g : Nat → Nat → Reader α}
    (hf : ∀ line line', Mirrors n k known bare (f line) (fun fuel => g fuel line')) :
    Mirrors n k known bare (currentLine >>= f) (fun fuel => currentLine >>= g fuel) := by
  intro r hk a r' hr
  refine ⟨(hf r.token.line r.token.line r hk a r' hr).1, fun q beside => ?_⟩
  exact (hf r.token.line q.token.line r hk a r' hr).2 q beside

/-- The current token is taken, which is not the end of the text. -/
theorem taking {c : Terminal} {following : List Terminal} {f : Token → Reader α} {g : Nat → Token → Reader α}
    (some : c ≠ .endOfText) (closed : c = .divide → .times ∉ following)
    (hf : ∀ a b : Token, a.text = b.text → Mirrors (n + 16) (k - 1) Any bare (f a) (fun fuel => g fuel b)) :
    Mirrors n k (· = c) bare (take following >>= f) (fun fuel => take following >>= g fuel) :=
  bindKnown (mirrors_take some.symm fun same => closed same.symm) (Nat.le_refl n) fun a b same =>
    hf a b (Prod.mk.inj same).2

/-- A given token is taken. -/
theorem expecting {terminal : Terminal} {following : List Terminal} {f : Token → Reader α}
    {g : Nat → Token → Reader α} (some : terminal ≠ .endOfText) (other : terminal ≠ .divide)
    (hf : ∀ a b : Token, a.text = b.text → Mirrors (n + 16) (k - 1) Any bare (f a) (fun fuel => g fuel b)) :
    Mirrors n k known bare (expect terminal following >>= f) (fun fuel => expect terminal following >>= g fuel) := by
  have taken : Mirrors n 1 known Token.bare (expect terminal following) (fun _ => expect terminal following) := by
    refine .current fun c _ => .ite (fun same => ?_) fun _ => .unexpected
    subst same
    exact mirrors_take some.symm fun division => absurd division.symm other
  exact bindKnown taken (Nat.le_refl n) fun a b same => hf a b (Prod.mk.inj same).2

/-- The same name is taken. -/
theorem naming {following : List Terminal} {f : String → Reader α} {g : Nat → String → Reader α}
    (hf : ∀ name, Mirrors (n + 16) (k - 1) Any bare (f name) (fun fuel => g fuel name)) :
    Mirrors n k known bare (expectName following >>= f) (fun fuel => expectName following >>= g fuel) := by
  have named : Mirrors n 1 known id (expectName following) (fun _ => expectName following) :=
    .expecting (by decide) (by decide) fun _ _ same => .pure (congrArg String.ofList same)
  refine bindKnown named (Nat.le_refl n) fun name name' same => ?_
  obtain rfl : name = name' := same
  exact hf name

end Mirrors

/-! ## Expressions -/

/-- The readers of expressions, whatever the fuel of the first ones; each with what it can need before it takes a
token. -/
structure ExpressionsMirror (fuel : Nat) : Prop where
  binary : ∀ level, Mirrors (3 + (6 - level) + 1) 0 Any Expr.bare (binary fuel level) (fun m => Reader.binary m level)
  binaryFrom : ∀ level line line' left left', left.bare = left'.bare → Mirrors 1 0 Any Expr.bare
    (binaryFrom fuel level line left) (fun m => Reader.binaryFrom m level line' left')
  unary : Mirrors 3 0 Any Expr.bare (unary fuel) Reader.unary
  access : Mirrors 2 0 Any Expr.bare (access fuel) Reader.access
  accessFrom : ∀ line line' object object', object.bare = object'.bare → Mirrors 1 0 Any Expr.bare
    (accessFrom fuel line object) (fun m => Reader.accessFrom m line' object')
  primary : Mirrors 1 0 Any Expr.bare (primary fuel) Reader.primary
  items : ∀ closing, Mirrors 11 0 Any Expr.bareAll (items fuel closing) (fun m => Reader.items m closing)
  itemsFrom : Mirrors 1 0 Any Expr.bareAll (itemsFrom fuel) Reader.itemsFrom

namespace ExpressionsMirror

variable {fuel : Nat}

/-! Each reader with one more unit of fuel. -/

theorem binary_succ (ih : ExpressionsMirror fuel) (level : Nat) : Mirrors (3 + (6 - level) + 1) 0 Any Expr.bare
    (Reader.binary (fuel + 1) level) (fun m => Reader.binary m level) := by
  rw [Reader.binary]
  refine .succ (fun m => by rw [Reader.binary]) (.ite (fun lower => .line fun line line' => ?_) fun _ =>
    .last ih.unary (by omega) (by omega))
  rw [levels] at lower
  exact .bind (ih.binary (level + 1)) (by omega) fun left left' same =>
    .last (ih.binaryFrom level line line' left left' same) (by omega) (by omega)

theorem binaryFrom_succ (ih : ExpressionsMirror fuel) (level line line' : Nat) {left left' : Expr}
    (same : left.bare = left'.bare) : Mirrors 1 0 Any Expr.bare (Reader.binaryFrom (fuel + 1) level line left)
      (fun m => Reader.binaryFrom m level line' left') := by
  rw [Reader.binaryFrom]
  refine .succ (fun m => by rw [Reader.binaryFrom]) (.current fun c _ => ?_)
  cases operator : binaryOp? c with
  | none => exact .pure same
  | some op =>
    refine .ite (fun _ => .taking ?_ (fun _ => by decide) fun _ _ _ => ?_) fun _ => .pure same
    · rintro rfl
      cases operator
    · exact .bind (ih.binary (level + 1)) (by omega) fun right right' same' =>
        .last (ih.binaryFrom level line line' _ _ (by simp only [Expr.bare, same, same'])) (by omega) (by omega)

theorem unary_succ (ih : ExpressionsMirror fuel) :
    Mirrors 3 0 Any Expr.bare (Reader.unary (fuel + 1)) Reader.unary := by
  rw [Reader.unary]
  refine .succ (fun m => by rw [Reader.unary]) (.line fun line line' => .current fun c _ => ?_)
  cases c
  case bang | minus =>
    exact .taking (by decide) (by decide) fun _ _ _ => .bind ih.unary (by omega) fun e e' same =>
      .pure (by simp only [Expr.bare, same])
  all_goals exact .last ih.access (by omega) (by omega)

theorem access_succ (ih : ExpressionsMirror fuel) :
    Mirrors 2 0 Any Expr.bare (Reader.access (fuel + 1)) Reader.access := by
  rw [Reader.access]
  exact .succ (fun m => by rw [Reader.access]) (.line fun line line' =>
    .bind ih.primary (by omega) fun object object' same =>
    .last (ih.accessFrom line line' object object' same) (by omega) (by omega))

theorem accessFrom_succ (ih : ExpressionsMirror fuel) (line line' : Nat) {object object' : Expr}
    (same : object.bare = object'.bare) : Mirrors 1 0 Any Expr.bare (Reader.accessFrom (fuel + 1) line object)
      (fun m => Reader.accessFrom m line' object') := by
  rw [Reader.accessFrom]
  refine .succ (fun m => by rw [Reader.accessFrom]) (.current fun c _ => ?_)
  cases c
  case dot =>
    refine .taking (by decide) (by decide) fun _ _ _ => .naming fun name => .current fun c _ => .ite ?_ fun _ =>
      .last (ih.accessFrom line line' _ _ (by simp only [Expr.bare, same])) (by omega) (by omega)
    rintro rfl
    exact .taking (by decide) (by decide) fun _ _ _ => .bind (ih.items _) (by omega) fun arguments arguments' each =>
      .expecting (by decide) (by decide) fun _ _ _ =>
      .last (ih.accessFrom line line' _ _ (by simp only [Expr.bare, same, each])) (by omega) (by omega)
  case openBracket =>
    exact .taking (by decide) (by decide) fun _ _ _ => .bind (ih.binary 0) (by omega) fun place place' at' =>
      .expecting (by decide) (by decide) fun _ _ _ =>
      .last (ih.accessFrom line line' _ _ (by simp only [Expr.bare, same, at'])) (by omega) (by omega)
  all_goals exact .pure same

theorem primary_succ (ih : ExpressionsMirror fuel) :
    Mirrors 1 0 Any Expr.bare (Reader.primary (fuel + 1)) Reader.primary := by
  rw [Reader.primary]
  refine .succ (fun m => by rw [Reader.primary]) (.line fun line line' => .current fun c _ => ?_)
  cases c
  case number | string =>
    exact .taking (by decide) (by decide) fun token token' same => .pure (by simp only [Expr.bare, same])
  case true_ | false_ | this => exact .taking (by decide) (by decide) fun _ _ _ => .pure rfl
  case name =>
    refine .naming fun name => .current fun c _ => .ite ?_ fun _ => .pure rfl
    rintro rfl
    exact .taking (by decide) (by decide) fun _ _ _ => .bind (ih.items _) (by omega) fun arguments arguments' each =>
      .expecting (by decide) (by decide) fun _ _ _ => .pure (by simp only [Expr.bare, each])
  case openParen =>
    exact .taking (by decide) (by decide) fun _ _ _ => .bind (ih.binary 0) (by omega) fun inner inner' same =>
      .expecting (by decide) (by decide) fun _ _ _ => .pure same
  case openBracket =>
    exact .taking (by decide) (by decide) fun _ _ _ => .bind (ih.items _) (by omega) fun items items' each =>
      .expecting (by decide) (by decide) fun _ _ _ => .pure (by simp only [Expr.bare, each])
  all_goals exact .unexpected

theorem items_succ (ih : ExpressionsMirror fuel) (closing : Terminal) :
    Mirrors 11 0 Any Expr.bareAll (Reader.items (fuel + 1) closing) (fun m => Reader.items m closing) := by
  rw [Reader.items]
  exact .succ (fun m => by rw [Reader.items]) (.current fun c _ => .ite (fun _ => .pure rfl) fun _ =>
    .bind (ih.binary 0) (by omega) fun first first' same => .bind ih.itemsFrom (by omega) fun rest rest' each =>
    .pure (by simp only [Expr.bareAll, same, each]))

theorem itemsFrom_succ (ih : ExpressionsMirror fuel) :
    Mirrors 1 0 Any Expr.bareAll (Reader.itemsFrom (fuel + 1)) Reader.itemsFrom := by
  rw [Reader.itemsFrom]
  refine .succ (fun m => by rw [Reader.itemsFrom]) (.current fun c _ => .ite ?_ fun _ => .pure rfl)
  rintro rfl
  exact .taking (by decide) (by decide) fun _ _ _ => .bind (ih.binary 0) (by omega) fun item item' same =>
    .bind ih.itemsFrom (by omega) fun rest rest' each => .pure (by simp only [Expr.bareAll, same, each])

end ExpressionsMirror

theorem expressionsMirror (fuel : Nat) : ExpressionsMirror fuel := by
  induction fuel with
  | zero =>
    constructor <;> intros <;>
      simp only [Reader.binary, Reader.binaryFrom, Reader.unary, Reader.access, Reader.accessFrom,
        Reader.primary, Reader.items, Reader.itemsFrom] <;>
      exact .unexpected
  | succ fuel ih =>
    exact ⟨ih.binary_succ, fun level line line' _ _ => ih.binaryFrom_succ level line line', ih.unary_succ,
      ih.access_succ, fun line line' _ _ => ih.accessFrom_succ line line', ih.primary_succ, ih.items_succ,
      ih.itemsFrom_succ⟩

theorem mirrors_expression (fuel : Nat) : Mirrors 10 0 Any Expr.bare (expression fuel) expression :=
  (expressionsMirror fuel).binary 0

theorem mirrors_expressionFrom (fuel line line' : Nat) {first first' : Expr} (same : first.bare = first'.bare)
    (level : Nat) : Mirrors 1 0 Any Expr.bare (expressionFrom fuel line first level)
      (fun m => expressionFrom m line' first' level) := by
  induction level generalizing first first' with
  | zero => exact .pure same
  | succ level ih =>
    exact .bind ((expressionsMirror fuel).binaryFrom level line line' first first' same) (Nat.le_refl 1)
      fun e e' same' => .last (ih same') (by omega) (by omega)

/-! ## Types -/

structure TypesMirror (fuel : Nat) : Prop where
  type : Mirrors 1 0 Any TypeExpr.bare (type fuel) Reader.type
  arrayType : ∀ element element', element.bare = element'.bare → Mirrors 1 0 Any TypeExpr.bare
    (arrayType fuel element) (fun m => Reader.arrayType m element')
  objectFields : Mirrors 1 0 Any TypeExpr.bareFields (objectFields fuel) Reader.objectFields

theorem typesMirror (fuel : Nat) : TypesMirror fuel := by
  induction fuel with
  | zero =>
    constructor <;> intros <;> simp only [Reader.type, Reader.arrayType, Reader.objectFields] <;> exact .unexpected
  | succ fuel ih =>
    refine ⟨?_, fun element element' same => ?_, ?_⟩
    · rw [Reader.type]
      refine .succ (fun m => by rw [Reader.type]) (.line fun line line' => .current fun c _ => ?_)
      cases c
      case name => exact .naming fun name => .last (ih.arrayType _ _ rfl) (by omega) (by omega)
      case openBrace =>
        exact .taking (by decide) (by decide) fun _ _ _ => .bind ih.objectFields (by omega) fun fields fields' each =>
          .expecting (by decide) (by decide) fun _ _ _ =>
          .last (ih.arrayType _ _ (by simp only [TypeExpr.bare, each])) (by omega) (by omega)
      all_goals exact .unexpected
    · rw [Reader.arrayType]
      refine .succ (fun m => by rw [Reader.arrayType]) (.current fun c _ => .ite ?_ fun _ => .pure same)
      rintro rfl
      exact .taking (by decide) (by decide) fun _ _ _ => .expecting (by decide) (by decide) fun _ _ _ =>
        .last (ih.arrayType _ _ (by simp only [TypeExpr.bare, same])) (by omega) (by omega)
    · rw [Reader.objectFields]
      exact .succ (fun m => by rw [Reader.objectFields]) (.current fun c _ => .ite (fun _ =>
        .naming fun name => .expecting (by decide) (by decide) fun _ _ _ => .bind ih.type (by omega) fun t t' same =>
        .expecting (by decide) (by decide) fun _ _ _ => .bind ih.objectFields (by omega) fun rest rest' each =>
        .pure (by simp only [TypeExpr.bareFields, same, each])) fun _ => .pure rfl)

theorem mirrors_optionalType (fuel : Nat) :
    Mirrors 1 0 Any (Option.map TypeExpr.bare) (optionalType fuel) optionalType := by
  refine .current fun c _ => .ite ?_ fun _ => .pure rfl
  rintro rfl
  exact .taking (by decide) (by decide) fun _ _ _ => .bind (typesMirror fuel).type (by omega) fun t t' same =>
    .pure (congrArg some same)

/-! ## Statements -/

structure StatementsMirror (fuel : Nat) : Prop where
  statement : Mirrors 11 1 Any Stmt.bare (statement fuel) Reader.statement
  block : Mirrors 1 1 Any Stmt.bare (block fuel) Reader.block
  statements : Mirrors 12 0 Any Stmt.bareAll (statements fuel) Reader.statements

namespace StatementsMirror

variable {fuel : Nat}

theorem statement_succ (ih : StatementsMirror fuel) :
    Mirrors 11 1 Any Stmt.bare (Reader.statement (fuel + 1)) Reader.statement := by
  rw [Reader.statement]
  have value := mirrors_expression fuel
  refine .succ (fun m => by rw [Reader.statement]) (.line fun line line' => .current fun c _ => ?_)
  cases c
  case openBrace => exact .last ih.block (by omega) (by omega)
  case let_ =>
    exact .taking (by decide) (by decide) fun _ _ _ => .naming fun name =>
      .bind (mirrors_optionalType fuel) (by omega) fun t t' written => .expecting (by decide) (by decide) fun _ _ _ =>
      .bind value (by omega) fun e e' same => .expecting (by decide) (by decide) fun _ _ _ =>
      .pure (by simp only [Stmt.bare, written, same])
  case if_ =>
    refine .taking (by decide) (by decide) fun _ _ _ => .expecting (by decide) (by decide) fun _ _ _ =>
      .bind value (by omega) fun e e' same => .expecting (by decide) (by decide) fun _ _ _ =>
      .bind ih.statement (by omega) fun yes yes' first => .current fun c _ => .ite ?_ fun _ =>
      .pure (by simp only [Stmt.bare, same, first])
    rintro rfl
    exact .taking (by decide) (by decide) fun _ _ _ => .bind ih.statement (by omega) fun no no' second =>
      .pure (by simp only [Stmt.bare, same, first, second])
  case while_ =>
    exact .taking (by decide) (by decide) fun _ _ _ => .expecting (by decide) (by decide) fun _ _ _ =>
      .bind value (by omega) fun e e' same => .expecting (by decide) (by decide) fun _ _ _ =>
      .bind ih.statement (by omega) fun body body' inner => .pure (by simp only [Stmt.bare, same, inner])
  case return_ =>
    refine .taking (by decide) (by decide) fun _ _ _ => .current fun c _ => .ite ?_ fun _ => ?_
    · rintro rfl
      exact .taking (by decide) (by decide) fun _ _ _ => .pure rfl
    · exact .bind value (by omega) fun e e' same => .expecting (by decide) (by decide) fun _ _ _ =>
        .pure (by simp only [Stmt.bare, Option.map_some, same])
  case bang | minus =>
    exact .bind value (by omega) fun e e' same => .expecting (by decide) (by decide) fun _ _ _ =>
      .pure (by simp only [Stmt.bare, same])
  all_goals
    refine .bind (expressionsMirror fuel).access (by omega) fun first first' same => .current fun c _ => ?_
    cases assignment : assignOp? c with
    | some op =>
      refine .taking ?_ ?_ fun _ _ _ => .bind value (by omega) fun e e' same' =>
        .expecting (by decide) (by decide) fun _ _ _ => .pure (by simp only [Stmt.bare, same, same'])
      all_goals
        rintro rfl
        cases assignment
    | none =>
      exact .bind (mirrors_expressionFrom fuel line line' same levels) (by omega) fun e e' same' =>
        .expecting (by decide) (by decide) fun _ _ _ => .pure (by simp only [Stmt.bare, same'])

theorem block_succ (ih : StatementsMirror fuel) :
    Mirrors 1 1 Any Stmt.bare (Reader.block (fuel + 1)) Reader.block := by
  rw [Reader.block]
  exact .succ (fun m => by rw [Reader.block]) (.line fun line line' =>
    .expecting (by decide) (by decide) fun _ _ _ => .bind ih.statements (by omega) fun inner inner' each =>
    .expecting (by decide) (by decide) fun _ _ _ => .pure (by simp only [Stmt.bare, each]))

theorem statements_succ (ih : StatementsMirror fuel) :
    Mirrors 12 0 Any Stmt.bareAll (Reader.statements (fuel + 1)) Reader.statements := by
  rw [Reader.statements]
  exact .succ (fun m => by rw [Reader.statements]) (.current fun c _ => .ite (fun _ => .pure rfl) fun _ =>
    .bind ih.statement (by omega) fun first first' same => .bind ih.statements (by omega) fun rest rest' each =>
    .pure (by simp only [Stmt.bareAll, same, each]))

end StatementsMirror

theorem statementsMirror (fuel : Nat) : StatementsMirror fuel := by
  induction fuel with
  | zero =>
    constructor <;> simp only [Reader.statement, Reader.block, Reader.statements] <;> exact .unexpected
  | succ fuel ih => exact ⟨ih.statement_succ, ih.block_succ, ih.statements_succ⟩

/-! ## Declarations -/

theorem mirrors_parameter (fuel : Nat) : Mirrors 1 0 Any Parameter.bare (parameter fuel) parameter :=
  .line fun line line' => .naming fun name => .expecting (by decide) (by decide) fun _ _ _ =>
    .bind (typesMirror fuel).type (by omega) fun t t' same => .pure (by simp only [Parameter.bare, same])

theorem mirrors_parametersFrom (fuel : Nat) :
    Mirrors 1 0 Any (List.map Parameter.bare) (parametersFrom fuel) parametersFrom := by
  induction fuel with
  | zero => exact .unexpected
  | succ fuel ih =>
    refine .succ (fun m => rfl) (.current fun c _ => .ite ?_ fun _ => .pure rfl)
    rintro rfl
    exact .taking (by decide) (by decide) fun _ _ _ => .bind (mirrors_parameter fuel) (by omega)
      fun first first' same => .bind ih (by omega) fun rest rest' each =>
      .pure (by simp only [List.map_cons, same, each])

theorem mirrors_parameters (fuel : Nat) (following : List Terminal) :
    Mirrors 1 2 Any (List.map Parameter.bare) (parameters fuel following) (fun m => parameters m following) := by
  have close {n : Nat} {known : Terminal → Prop} {ps ps' : List Parameter}
      (each : ps.map Parameter.bare = ps'.map Parameter.bare) : Mirrors n 1 known (List.map Parameter.bare)
        (do let _ ← expect .closeParen following; return ps)
        (fun _ => do let _ ← expect .closeParen following; return ps') :=
    .expecting (by decide) (by decide) fun _ _ _ => .pure each
  exact .expecting (by decide) (by decide) fun _ _ _ => .current fun c _ => .ite (fun _ => close rfl) fun _ =>
    .bind (mirrors_parameter fuel) (by omega) fun first first' same =>
    .bind (mirrors_parametersFrom fuel) (by omega) fun rest rest' each =>
    close (by simp only [List.map_cons, same, each])

theorem mirrors_pathFrom (fuel : Nat) : Mirrors 1 0 Any id (pathFrom fuel) pathFrom := by
  induction fuel with
  | zero => exact .unexpected
  | succ fuel ih =>
    refine .succ (fun m => rfl) (.current fun c _ => .ite ?_ fun _ => .pure rfl)
    rintro rfl
    exact .taking (by decide) (by decide) fun _ _ _ => .naming fun name => .bind ih (by omega)
      fun rest rest' each => .pure (congrArg (name :: ·) each)

theorem mirrors_directiveArgument (fuel : Nat) :
    Mirrors 1 0 Any id (directiveArgument fuel) directiveArgument := by
  refine .current fun c _ => ?_
  cases c
  case keyLiteral =>
    exact .taking (by decide) (by decide) fun token token' same => .pure (by rw [same])
  case name =>
    exact .naming fun first => .bind (mirrors_pathFrom fuel) (by omega) fun rest rest' each =>
      .pure (congrArg (fun rest => DirectiveArgument.path (first :: rest)) each)
  all_goals exact .unexpected

theorem mirrors_directiveArgumentsFrom (fuel : Nat) :
    Mirrors 1 0 Any id (directiveArgumentsFrom fuel) directiveArgumentsFrom := by
  induction fuel with
  | zero => exact .unexpected
  | succ fuel ih =>
    refine .succ (fun m => rfl) (.current fun c _ => .ite ?_ fun _ => .pure rfl)
    rintro rfl
    exact .taking (by decide) (by decide) fun _ _ _ => .bind (mirrors_directiveArgument fuel) (by omega)
      fun first first' same => .bind ih (by omega) fun rest rest' each => .pure (congrArg₂ List.cons same each)

theorem mirrors_directive (fuel : Nat) : Mirrors 1 1 Any Directive.bare (directive fuel) directive := by
  refine .line fun line line' => .expecting (by decide) (by decide) fun _ _ _ => .naming fun name =>
    .current fun c _ => .ite ?_ fun _ => .pure rfl
  rintro rfl
  exact .taking (by decide) (by decide) fun _ _ _ => .bind (mirrors_directiveArgument fuel) (by omega)
    fun first first' same => .bind (mirrors_directiveArgumentsFrom fuel) (by omega) fun rest rest' each =>
    .expecting (by decide) (by decide) fun _ _ _ =>
    .pure (congrArg₂ (fun first rest => Directive.mk name (first :: rest) 0) same each)

theorem mirrors_directives (fuel : Nat) :
    Mirrors 2 0 Any (List.map Directive.bare) (directives fuel) directives := by
  induction fuel with
  | zero => exact .unexpected
  | succ fuel ih =>
    exact .succ (fun m => rfl) (.current fun c _ => .ite (fun _ => .bind (mirrors_directive fuel) (by omega)
      fun first first' same => .bind ih (by omega) fun rest rest' each =>
      .pure (by simp only [List.map_cons, same, each])) fun _ => .pure rfl)

theorem mirrors_functionFrom (fuel : Nat) {ds ds' : List Directive}
    (same : ds.map Directive.bare = ds'.map Directive.bare)
    (name : String) (line line' : Nat) : Mirrors 1 1 Any FunctionDecl.bare (functionFrom fuel ds name line)
      (fun m => functionFrom m ds' name line') :=
  .bind (mirrors_parameters fuel _) (by omega) fun ps ps' parameters => .bind (mirrors_optionalType fuel) (by omega)
    fun t t' result => .bind (statementsMirror fuel).block (by omega) fun b b' body =>
    .pure (by simp only [FunctionDecl.bare, same, parameters, result, body])

theorem mirrors_member (fuel : Nat) :
    Mirrors 2 1 Any (Sum.map FieldDecl.bare FunctionDecl.bare) (member fuel) member := by
  refine .bind (mirrors_directives fuel) (by omega) fun ds ds' same => .line fun line line' => .current fun c _ => ?_
  cases c
  case constructor =>
    exact .taking (by decide) (by decide) fun _ _ _ => .bind (mirrors_parameters fuel _) (by omega)
      fun ps ps' parameters => .bind (statementsMirror fuel).block (by omega) fun b b' body =>
      .pure (by simp only [Sum.map_inr, FunctionDecl.bare, same, parameters, body])
  case function =>
    exact .taking (by decide) (by decide) fun _ _ _ => .naming fun name =>
      .bind (mirrors_functionFrom fuel same name line line') (by omega) fun f f' same =>
      .pure (congrArg Sum.inr same)
  case name =>
    refine .naming fun name => .current fun c _ => .ite ?_ fun _ => ?_
    · rintro rfl
      exact .taking (by decide) (by decide) fun _ _ _ => .bind (typesMirror fuel).type (by omega) fun t t' written =>
        .expecting (by decide) (by decide) fun _ _ _ =>
        .pure (by simp only [Sum.map_inl, FieldDecl.bare, same, written])
    · exact .bind (mirrors_functionFrom fuel same name line line') (by omega) fun f f' same =>
        .pure (congrArg Sum.inr same)
  all_goals exact .unexpected

def bareMembers (found : List FieldDecl × List FunctionDecl) : List FieldDecl × List FunctionDecl :=
  (found.1.map FieldDecl.bare, found.2.map FunctionDecl.bare)

theorem mirrors_members (fuel : Nat) : Mirrors 3 0 Any bareMembers (members fuel) members := by
  induction fuel with
  | zero => exact .unexpected
  | succ fuel ih =>
    refine .succ (fun m => rfl) (.current fun c _ => .ite (fun _ => .pure rfl) fun _ =>
      .bind (mirrors_member fuel) (by omega) fun first first' same => .bind ih (by omega) fun found found' each => ?_)
    obtain ⟨fields, functions⟩ := Prod.mk.inj each
    cases first with
    | inl field =>
      cases first' with
      | inl field' =>
        exact .pure (by simp only [bareMembers, List.map_cons, Sum.inl.inj same, fields, functions])
      | inr => cases same
    | inr function =>
      cases first' with
      | inl => cases same
      | inr function' =>
        exact .pure (by simp only [bareMembers, List.map_cons, Sum.inr.inj same, fields, functions])

theorem mirrors_record (fuel : Nat) : Mirrors 3 1 Any RecordDecl.bare (record fuel) record := by
  refine .line fun line line' => .bind (mirrors_directives fuel) (by omega) fun ds ds' same => .current fun c _ => ?_
  cases c
  case contract | collection =>
    refine .taking (by decide) (by decide) fun _ _ _ => .naming fun name => .expecting (by decide) (by decide)
      fun _ _ _ => .bind (mirrors_members fuel) (by omega) fun found found' each => ?_
    obtain ⟨fields, functions⟩ := Prod.mk.inj each
    exact .expecting (by decide) (by decide) fun _ _ _ =>
      .pure (by simp only [RecordDecl.bare, same, fields, functions])
  all_goals exact .unexpected

theorem mirrors_records (fuel : Nat) : Mirrors 4 0 Any Program.bare (records fuel) records := by
  induction fuel with
  | zero => exact .unexpected
  | succ fuel ih =>
    exact .succ (fun m => rfl) (.current fun c _ => .ite (fun _ => .pure rfl) fun _ =>
      .bind (mirrors_record fuel) (by omega) fun first first' same => .bind ih (by omega) fun rest rest' each =>
      .pure (congrArg₂ List.cons same each))

/-- Records are read up to the end of the text. -/
theorem ended_of_records {fuel : Nat} {r r' : Reading} {program : Program}
    (h : (records fuel).run r = .ok (program, r')) : r'.token.terminal = .endOfText := by
  have ended : Ensures (fun _ => True) (records fuel) fun _ t => t.terminal = .endOfText := by
    clear h
    induction fuel with
    | zero => exact ensures_unexpected
    | succ fuel ih =>
      exact .bind ensures_current fun c => .ite (fun same => .pure fun t known => known.2.trans same)
        (.skip fun first => .bind ih fun rest => .pure fun _ known => known)
  exact ended r trivial program r' h

end Reader

namespace Program

open Lexeme (Respaced)

theorem read_of_aligned {source source' : List Char} (aligned : Aligned source source') {program : Program}
    {fuel : Nat} {first : Token} {place : SourcePlace} {ended : Reading}
    (start : Token.next Expected.declaration ⟨.endOfText, [], 1, 1⟩ ⟨source, 1, 1⟩ = .ok (first, place))
    (run : (Reader.records fuel).run ⟨first, place⟩ = .ok (program, ended)) :
    ∃ program', readChars source' = .ok program' ∧ program.bare = program'.bare := by
  have notStuck : ¬ ended.Stuck := by
    rintro ⟨division, -⟩
    rw [Reader.ended_of_records run] at division
    cases division
  obtain ⟨stuck, each⟩ := Reader.mirrors_records fuel ⟨first, place⟩ trivial program ended run
  rcases aligned.lexed (Token.lexed_of_next start) with ⟨rest, lexed, aligned⟩ | opens
  · obtain ⟨t, place', start', terminal, text, rfl⟩ :=
      Token.exists_next ⟨source', 1, 1⟩ lexed ⟨.endOfText, [], 1, 1⟩
    obtain ⟨within, some⟩ := Lexeme.length_of_lexed lexed
    rw [← text, ← terminal] at some
    rw [← text] at within
    have beside : Reading.Beside ⟨first, place⟩ ⟨t, place'⟩ :=
      ⟨by rw [Token.bare, Token.bare, terminal, text], aligned, some⟩
    obtain ⟨program', ended', -, same, -, runs⟩ := (each _ beside).resolve_left notStuck
    have enough : 16 * Reading.left ⟨t, place'⟩ + 4 ≤ fuelFor source'.length + 16 * ended'.left := by
      have left : Reading.left ⟨t, place'⟩ ≤ source'.length := within
      rw [fuelFor]
      omega
    exact ⟨program', bind_eq_ok.mpr ⟨_, start', bind_eq_ok.mpr ⟨_, runs _ enough, rfl⟩⟩, same⟩
  · exact absurd (stuck opens) notStuck

/-- Layout does not matter: whatever blanks and comments are put between the tokens of a text, it writes the same
program, up to the lines on which its parts stand. -/
theorem layout_is_immaterial {source source' : String} (respaced : Respaced source.toList source'.toList)
    {program : Program} (read : Program.read source = .ok program) :
    ∃ program', Program.read source' = .ok program' ∧ program'.bare = program.bare := by
  obtain ⟨⟨token, place⟩, hn, h⟩ := bind_eq_ok.mp read
  obtain ⟨⟨program', ended⟩, hr, h⟩ := bind_eq_ok.mp h
  obtain rfl := pure_eq_ok.mp h
  obtain ⟨program', read', same⟩ := read_of_aligned respaced.aligned hn hr
  exact ⟨program', read', same.symm⟩

/-- Two comments between two tokens, one of which seems to open a third one. -/
theorem comments_are_immaterial : ∃ program program',
    Program.read "contract R\x7b\x7d" = .ok program ∧
    Program.read "contract\t/* a /* name */ // and no more\n R\x7b\x7d" = .ok program' ∧
    program'.bare = program.bare := by
  have filling : Lexeme.Filling "\t/* a /* name */ // and no more\n ".toList := by
    have parts : "\t/* a /* name */ // and no more\n ".toList = '\t' :: ('/' :: '*' :: " a /* name ".toList ++
        '*' :: '/' :: ' ' :: ('/' :: '/' :: " and no more".toList ++ ['\n', ' '])) := by decide +kernel
    rw [parts]
    exact .space rfl (.block (by decide +kernel) (.space rfl (.line (by decide +kernel) (.space rfl .nil))))
  have gap : Respaced ([' '] ++ "R\x7b\x7d".toList)
      ("\t/* a /* name */ // and no more\n ".toList ++ "R\x7b\x7d".toList) :=
    .gap (.space rfl .nil) (by decide) (by decide +kernel) (.inr ⟨filling, '\t', by decide +kernel, rfl⟩) (.rest _)
  have respaced : Respaced "contract R\x7b\x7d".toList
      "contract\t/* a /* name */ // and no more\n R\x7b\x7d".toList := by
    have after : [' '] ++ "R\x7b\x7d".toList = "contract R\x7b\x7d".toList.drop 8 := by decide +kernel
    have put : "contract R\x7b\x7d".toList.take 8 ++ ("\t/* a /* name */ // and no more\n ".toList ++
      "R\x7b\x7d".toList) = "contract\t/* a /* name */ // and no more\n R\x7b\x7d".toList := by decide +kernel
    rw [after] at gap
    exact put ▸ @Respaced.token Terminal.all .contract 8 _ _ (by decide +kernel) (by decide +kernel) gap
  have reads : (Program.read "contract R\x7b\x7d").toOption.isSome = true := by decide +kernel
  obtain ⟨program, read⟩ := Option.isSome_iff_exists.mp reads
  rw [toOption_eq_some] at read
  obtain ⟨program', read', same⟩ := layout_is_immaterial respaced read
  exact ⟨program, program', read, read', same⟩

end Program

end Covenant
