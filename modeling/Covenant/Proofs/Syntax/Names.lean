import Covenant.Proofs.Except
import Covenant.Syntax.Parser
/-!
The names that are read from source text are not empty, and hold only what belongs to a name.

* `Lexeme.IsName`: a text that a name token may have;
* `Program.Named`: all declarations of a program, and all parts of the types that it writes, have names;
* `Reader.Gives`: what a reader gives when the current token is sound, put together piece by piece;
* `Program.named_of_read`: so it is with every program that a text writes.
-/

namespace Covenant

/-- A text of one or more letters, digits and underscores. -/
def Lexeme.IsName (s : List Char) : Prop := s ≠ [] ∧ ∀ c ∈ s, isNamePart c = true

/-- A written type whose objects name all their fields. -/
inductive TypeExpr.Named : TypeExpr → Prop
  | named (name : String) (line : Nat) : Named (.named name line)
  | array {element : TypeExpr} (h : Named element) : Named (.array element)
  | object {fields : List (String × TypeExpr)} (names : ∀ f ∈ fields, Lexeme.IsName f.1.toList)
      (parts : ∀ f ∈ fields, Named f.2) : Named (.object fields)

/-- A statement whose declarations name all parts of the types that they write. -/
inductive Stmt.Named : Stmt → Prop
  | block {statements : List Stmt} {line : Nat} (each : ∀ s ∈ statements, Named s) :
      Named (.block statements line)
  | declare {name : String} {type : Option TypeExpr} {value : Expr} {line : Nat}
      (written : ∀ t, type = some t → t.Named) : Named (.declare name type value line)
  | assign {target : Expr} {op : AssignOp} {value : Expr} {line : Nat} :
      Named (.assign target op value line)
  | ifThen {condition : Expr} {yes : Stmt} {line : Nat} (first : Named yes) :
      Named (.ifThen condition yes line)
  | ifElse {condition : Expr} {yes no : Stmt} {line : Nat} (first : Named yes) (second : Named no) :
      Named (.ifElse condition yes no line)
  | loop {condition : Expr} {body : Stmt} {line : Nat} (first : Named body) :
      Named (.loop condition body line)
  | leave {value : Option Expr} {line : Nat} : Named (.leave value line)
  | evaluate {value : Expr} {line : Nat} : Named (.evaluate value line)

structure FieldDecl.Named (f : FieldDecl) : Prop where
  name : Lexeme.IsName f.name.toList
  type : f.type.Named

structure Parameter.Named (p : Parameter) : Prop where
  name : Lexeme.IsName p.name.toList
  type : p.type.Named

structure FunctionDecl.Named (f : FunctionDecl) : Prop where
  name : Lexeme.IsName f.name.toList
  parameters : ∀ p ∈ f.parameters, p.Named
  result : ∀ t, f.result = some t → t.Named
  body : f.body.Named

structure RecordDecl.Named (r : RecordDecl) : Prop where
  name : Lexeme.IsName r.name.toList
  fields : ∀ f ∈ r.fields, f.Named
  functions : ∀ f ∈ r.functions, f.Named

def Program.Named (program : Program) : Prop := ∀ r ∈ program, r.Named

/-! ## Tokens -/

/-- A token that is a name only with the text of one. -/
def Token.Sound (t : Token) : Prop := t.terminal = .name → Lexeme.IsName t.text

namespace Lexeme

theorem IsName.ne_empty {name : String} (h : IsName name.toList) : name ≠ "" := by
  rintro rfl
  exact h.1 rfl

theorem isName_take {s : List Char} (h : nameSize s ≠ 0) : IsName (s.take (nameSize s)) := by
  cases s with
  | nil => exact absurd rfl h
  | cons c rest =>
    rw [nameSize] at h ⊢
    split at h
    next start =>
      rw [if_pos start, Nat.add_comm, List.take_succ_cons]
      refine ⟨List.cons_ne_nil _ _, List.forall_mem_cons.mpr ⟨by rw [isNamePart, start, Bool.true_or], ?_⟩⟩
      have taken : rest.take (rest.takeWhile isNamePart).length = rest.takeWhile isNamePart :=
        (List.prefix_iff_eq_take.mp (List.takeWhile_prefix _)).symm
      rw [taken]
      exact List.all_eq_true.mp List.all_takeWhile
    next => exact absurd rfl h

/-- A text of which the beginning is read as a name begins with one, and that is no word that is expected. -/
theorem name_of_match? {expected : List Terminal} {s : List Char} {size : Nat}
    (h : match? expected s = some (.name, size)) :
    IsName (s.take size) ∧ ∀ f ∈ Terminal.fixed, f.1 ∈ expected → f.2 ≠ s.take size := by
  have others : ∀ f ∈ Terminal.fixed, f.1 ≠ .name := by decide
  unfold match? at h
  split at h
  · cases h
  · split at h
    next hn =>
      rw [Bool.and_eq_true, bne_iff_ne] at hn
      dsimp only at h
      split at h
      next f hf =>
        exact absurd (Prod.mk.inj (Option.some.inj h)).1 (others f (List.mem_of_find?_eq_some hf))
      next none =>
        obtain ⟨-, rfl⟩ := Prod.mk.inj (Option.some.inj h)
        refine ⟨isName_take hn.2, fun f hf he same => ?_⟩
        refine List.find?_eq_none.mp none f hf ?_
        rw [Bool.and_eq_true, List.contains_iff_mem, beq_iff_eq]
        exact ⟨he, same⟩
    next =>
      split at h
      · cases h
      · split at h
        · cases h
        · obtain ⟨f, hf, he⟩ := Option.map_eq_some_iff.mp h
          exact absurd (Prod.mk.inj he).1 (others f (List.mem_of_find?_eq_some hf))

end Lexeme

/-- The text of a name is read among the expected terminals. -/
theorem Token.match?_of_next {expected : List Terminal} {before t : Token} {place place' : SourcePlace}
    (h : next expected before place = .ok (t, place')) (name : t.terminal = .name) :
    ∃ s size, Lexeme.match? expected s = some (.name, size) ∧ t.text = s.take size := by
  unfold next at h
  dsimp only at h
  split at h
  · cases h
    cases name
  next c rest hr =>
    split at h
    next t' size hm =>
      cases h
      obtain rfl : t' = .name := name
      exact ⟨_, size, hm, rfl⟩
    next => split at h <;> cases h

theorem Token.sound_of_next {expected : List Terminal} {before t : Token}
    {place place' : SourcePlace} (h : next expected before place = .ok (t, place')) : t.Sound := by
  intro name
  obtain ⟨s, size, found, text⟩ := match?_of_next h name
  rw [text]
  exact (Lexeme.name_of_match? found).1

/-! ## Readers -/

namespace Reader

/-- What a reader gives, and that it leaves a sound token, when the current token is sound. -/
def Gives {α : Type} (x : Reader α) (P : α → Prop) : Prop :=
  ∀ r : Reading, r.token.Sound → ∀ a r', x.run r = .ok (a, r') → r'.token.Sound ∧ P a

/-- A reader that leaves a sound token. -/
def Keeps {α : Type} (x : Reader α) : Prop := x.Gives fun _ => True

variable {α β : Type} {x : Reader α} {f : α → Reader β} {P : α → Prop} {Q : β → Prop}

namespace Gives

theorem pure {a : α} (h : P a) : Gives (Pure.pure a) P := by
  intro r sound a' r' hr
  cases hr
  exact ⟨sound, h⟩

theorem bind (hx : x.Gives P) (hf : ∀ a, P a → (f a).Gives Q) : Gives (x >>= f) Q := by
  intro r sound b r' hr
  rw [StateT.run_bind] at hr
  obtain ⟨⟨a, r₁⟩, ha, hb⟩ := bind_eq_ok.mp hr
  obtain ⟨sound₁, hp⟩ := hx r sound a r₁ ha
  exact hf a hp r₁ sound₁ b r' hb

/-- A piece of which only what it leaves matters. -/
theorem after (hx : x.Keeps) (hf : ∀ a, (f a).Gives Q) : Gives (x >>= f) Q :=
  hx.bind fun a _ => hf a

theorem keeps (hx : x.Gives P) : x.Keeps := by
  intro r sound a r' hr
  exact ⟨(hx r sound a r' hr).1, trivial⟩

theorem ite {c : Prop} [Decidable c] {y : Reader α} (hx : x.Gives P) (hy : y.Gives P) :
    Gives (if c then x else y) P := by
  split
  · exact hx
  · exact hy

end Gives

theorem gives_unexpected : Gives (unexpected : Reader α) P := by
  intro r sound a r' hr
  cases hr

theorem keeps_current : Keeps current := by
  intro r sound a r' hr
  cases hr
  exact ⟨sound, trivial⟩

theorem keeps_currentLine : Keeps currentLine := by
  intro r sound a r' hr
  cases hr
  exact ⟨sound, trivial⟩

theorem gives_take (following : List Terminal) : Gives (take following) Token.Sound := by
  intro r sound a r' hr
  rw [take, StateT.run_bind, StateT.run_get] at hr
  rw [pure_bind] at hr
  cases hn : r.token.next following r.place with
  | ok next =>
    simp only [hn] at hr
    cases hr
    exact ⟨Token.sound_of_next hn, sound⟩
  | error fault =>
    simp only [hn] at hr
    cases hr

theorem keeps_take (following : List Terminal) : Keeps (take following) := (gives_take following).keeps

/-- What is taken as a name is one. -/
theorem gives_expect (terminal : Terminal) (following : List Terminal) :
    Gives (expect terminal following) fun t => terminal = .name → Lexeme.IsName t.text := by
  intro r sound a r' hr
  rw [expect, StateT.run_bind] at hr
  obtain ⟨⟨t, r₁⟩, hc, hr⟩ := bind_eq_ok.mp hr
  cases hc
  dsimp only at hr
  split at hr
  next same =>
    obtain ⟨sound', token⟩ := gives_take following r sound a r' hr
    have first : a = r.token := by
      rw [take, StateT.run_bind, StateT.run_get, pure_bind] at hr
      split at hr
      · cases hr
        rfl
      · cases hr
    exact ⟨sound', fun name => token (by rw [first, same, name])⟩
  next => cases hr

theorem keeps_expect (terminal : Terminal) (following : List Terminal) :
    Keeps (expect terminal following) := (gives_expect terminal following).keeps

theorem gives_expectName (following : List Terminal) :
    Gives (expectName following) fun name => Lexeme.IsName name.toList := by
  refine (gives_expect .name following).bind fun t ht => .pure ?_
  rw [String.toList_ofList]
  exact ht rfl

theorem keeps_expectName (following : List Terminal) : Keeps (expectName following) :=
  (gives_expectName following).keeps

/-! ## Expressions -/

structure ExpressionsKeep (fuel : Nat) : Prop where
  binary : ∀ level, Keeps (binary fuel level)
  binaryFrom : ∀ level line left, Keeps (binaryFrom fuel level line left)
  unary : Keeps (unary fuel)
  access : Keeps (access fuel)
  accessFrom : ∀ line object, Keeps (accessFrom fuel line object)
  primary : Keeps (primary fuel)
  items : ∀ closing, Keeps (items fuel closing)
  itemsFrom : Keeps (itemsFrom fuel)

theorem expressionsKeep (fuel : Nat) : ExpressionsKeep fuel := by
  have done {α : Type} (a : α) : Keeps (pure a : Reader α) := Gives.pure trivial
  induction fuel with
  | zero =>
    constructor <;> intros <;>
      simp only [Reader.binary, Reader.binaryFrom, Reader.unary, Reader.access, Reader.accessFrom,
        Reader.primary, Reader.items, Reader.itemsFrom] <;>
      exact gives_unexpected
  | succ fuel ih =>
    refine ⟨fun level => ?_, fun level line left => ?_, ?_, ?_, fun line object => ?_, ?_,
      fun closing => ?_, ?_⟩
    · rw [Reader.binary]
      exact .ite (.after keeps_currentLine fun line => .after (ih.binary _) fun left =>
        ih.binaryFrom level line left) ih.unary
    · rw [Reader.binaryFrom]
      refine .after keeps_current fun t => ?_
      split
      · exact .ite (.after (keeps_take _) fun _ => .after (ih.binary _) fun right =>
          ih.binaryFrom level line _) (done left)
      · exact done left
    · rw [Reader.unary]
      refine .after keeps_currentLine fun line => .after keeps_current fun t => ?_
      split
      · exact .after (keeps_take _) fun _ => .after ih.unary fun e => done _
      · exact .after (keeps_take _) fun _ => .after ih.unary fun e => done _
      · exact ih.access
    · rw [Reader.access]
      exact .after keeps_currentLine fun line => .after ih.primary fun object =>
        ih.accessFrom line object
    · rw [Reader.accessFrom]
      refine .after keeps_current fun t => ?_
      split
      · refine .after (keeps_take _) fun _ => .after (keeps_expectName _) fun name =>
          .after keeps_current fun t => .ite ?_ (ih.accessFrom line _)
        exact .after (keeps_take _) fun _ => .after (ih.items _) fun arguments =>
          .after (keeps_expect _ _) fun _ => ih.accessFrom line _
      · exact .after (keeps_take _) fun _ => .after (ih.binary _) fun place =>
          .after (keeps_expect _ _) fun _ => ih.accessFrom line _
      · exact done object
    · rw [Reader.primary]
      refine .after keeps_currentLine fun line => .after keeps_current fun t => ?_
      split
      · exact .after (keeps_take _) fun token => done _
      · exact .after (keeps_take _) fun token => done _
      · exact .after (keeps_take _) fun _ => done _
      · exact .after (keeps_take _) fun _ => done _
      · exact .after (keeps_take _) fun _ => done _
      · refine .after (keeps_expectName _) fun name => .after keeps_current fun t => .ite ?_ (done _)
        exact .after (keeps_take _) fun _ => .after (ih.items _) fun arguments =>
          .after (keeps_expect _ _) fun _ => done _
      · exact .after (keeps_take _) fun _ => .after (ih.binary _) fun inner =>
          .after (keeps_expect _ _) fun _ => done _
      · exact .after (keeps_take _) fun _ => .after (ih.items _) fun items =>
          .after (keeps_expect _ _) fun _ => done _
      · exact gives_unexpected
    · rw [Reader.items]
      exact .after keeps_current fun t => .ite (done _) (.after (ih.binary _) fun first =>
        .after ih.itemsFrom fun rest => done _)
    · rw [Reader.itemsFrom]
      exact .after keeps_current fun t => .ite (.after (keeps_take _) fun _ =>
        .after (ih.binary _) fun item => .after ih.itemsFrom fun rest => done _) (done _)

theorem keeps_expression (fuel : Nat) : Keeps (expression fuel) := (expressionsKeep fuel).binary 0

theorem keeps_expressionFrom (fuel line : Nat) (first : Expr) (level : Nat) :
    Keeps (expressionFrom fuel line first level) := by
  induction level generalizing first with
  | zero => exact Gives.pure trivial
  | succ level ih => exact .after ((expressionsKeep fuel).binaryFrom level line first) fun e => ih e

/-! ## Types -/

structure TypesNamed (fuel : Nat) : Prop where
  type : Gives (type fuel) TypeExpr.Named
  arrayType : ∀ element : TypeExpr, element.Named → Gives (arrayType fuel element) TypeExpr.Named
  objectFields : Gives (objectFields fuel) fun fields =>
    (∀ f ∈ fields, Lexeme.IsName f.1.toList) ∧ ∀ f ∈ fields, f.2.Named

theorem typesNamed (fuel : Nat) : TypesNamed fuel := by
  induction fuel with
  | zero =>
    constructor <;> intros <;>
      simp only [Reader.type, Reader.arrayType, Reader.objectFields] <;>
      exact gives_unexpected
  | succ fuel ih =>
    refine ⟨?_, fun element named => ?_, ?_⟩
    · rw [Reader.type]
      refine .after keeps_currentLine fun line => .after keeps_current fun t => ?_
      split
      · exact .after (keeps_expectName _) fun name => ih.arrayType _ (.named name line)
      · exact .after (keeps_take _) fun _ => .bind ih.objectFields fun fields named =>
          .after (keeps_expect _ _) fun _ => ih.arrayType _ (.object named.1 named.2)
      · exact gives_unexpected
    · rw [Reader.arrayType]
      exact .after keeps_current fun t => .ite (.after (keeps_take _) fun _ =>
        .after (keeps_expect _ _) fun _ => ih.arrayType _ (.array named)) (.pure named)
    · rw [Reader.objectFields]
      refine .after keeps_current fun t => .ite ?_ (.pure (by simp))
      refine .bind (gives_expectName _) fun name hn => .after (keeps_expect _ _) fun _ =>
        .bind ih.type fun t ht => .after (keeps_expect _ _) fun _ =>
        .bind ih.objectFields fun rest named => .pure ?_
      exact ⟨List.forall_mem_cons.mpr ⟨hn, named.1⟩, List.forall_mem_cons.mpr ⟨ht, named.2⟩⟩

theorem gives_optionalType (fuel : Nat) :
    Gives (optionalType fuel) fun found => ∀ t, found = some t → t.Named := by
  refine .after keeps_current fun t => .ite ?_ (.pure fun _ h => by cases h)
  exact .after (keeps_take _) fun _ => .bind (typesNamed fuel).type fun type named =>
    .pure fun t h => Option.some.inj h ▸ named

/-! ## Statements -/

structure StatementsNamed (fuel : Nat) : Prop where
  statement : Gives (statement fuel) Stmt.Named
  block : Gives (block fuel) Stmt.Named
  statements : Gives (statements fuel) fun found => ∀ s ∈ found, s.Named

theorem statementsNamed (fuel : Nat) : StatementsNamed fuel := by
  induction fuel with
  | zero =>
    constructor <;>
      simp only [Reader.statement, Reader.block, Reader.statements] <;>
      exact gives_unexpected
  | succ fuel ih =>
    have value := keeps_expression fuel
    refine ⟨?_, ?_, ?_⟩
    · rw [Reader.statement]
      refine .after keeps_currentLine fun line => .after keeps_current fun t => ?_
      split
      · exact ih.block
      · exact .after (keeps_take _) fun _ => .after (keeps_expectName _) fun name =>
          .bind (gives_optionalType fuel) fun type written => .after (keeps_expect _ _) fun _ =>
          .after value fun e => .after (keeps_expect _ _) fun _ => .pure (.declare written)
      · refine .after (keeps_take _) fun _ => .after (keeps_expect _ _) fun _ =>
          .after value fun condition => .after (keeps_expect _ _) fun _ =>
          .bind ih.statement fun yes first => .after keeps_current fun t => .ite ?_
            (.pure (.ifThen first))
        exact .after (keeps_take _) fun _ => .bind ih.statement fun no second =>
          .pure (.ifElse first second)
      · exact .after (keeps_take _) fun _ => .after (keeps_expect _ _) fun _ =>
          .after value fun condition => .after (keeps_expect _ _) fun _ =>
          .bind ih.statement fun body first => .pure (.loop first)
      · refine .after (keeps_take _) fun _ => .after keeps_current fun t => .ite ?_ ?_
        · exact .after (keeps_take _) fun _ => .pure .leave
        · exact .after value fun e => .after (keeps_expect _ _) fun _ => .pure .leave
      · exact .after value fun e => .after (keeps_expect _ _) fun _ => .pure .evaluate
      · exact .after value fun e => .after (keeps_expect _ _) fun _ => .pure .evaluate
      · refine .after (expressionsKeep fuel).access fun first => .after keeps_current fun t => ?_
        split
        · exact .after (keeps_take _) fun _ => .after value fun e =>
            .after (keeps_expect _ _) fun _ => .pure .assign
        · exact .after (keeps_expressionFrom _ _ _ _) fun e => .after (keeps_expect _ _) fun _ =>
            .pure .evaluate
    · rw [Reader.block]
      exact .after keeps_currentLine fun line => .after (keeps_expect _ _) fun _ =>
        .bind ih.statements fun inner each => .after (keeps_expect _ _) fun _ => .pure (.block each)
    · rw [Reader.statements]
      refine .after keeps_current fun t => .ite (.pure (by simp)) ?_
      exact .bind ih.statement fun first named => .bind ih.statements fun rest each =>
        .pure (List.forall_mem_cons.mpr ⟨named, each⟩)

/-! ## Declarations -/

theorem gives_parameter (fuel : Nat) : Gives (parameter fuel) Parameter.Named :=
  .after keeps_currentLine fun _ => .bind (gives_expectName _) fun _ hn =>
    .after (keeps_expect _ _) fun _ => .bind (typesNamed fuel).type fun _ named => .pure ⟨hn, named⟩

theorem gives_parametersFrom (fuel : Nat) :
    Gives (parametersFrom fuel) fun ps => ∀ p ∈ ps, p.Named := by
  induction fuel with
  | zero => exact gives_unexpected
  | succ fuel ih =>
    refine .after keeps_current fun t => .ite ?_ (.pure (by simp))
    exact .after (keeps_take _) fun _ => .bind (gives_parameter fuel) fun first named =>
      .bind ih fun rest each => .pure (List.forall_mem_cons.mpr ⟨named, each⟩)

theorem gives_parameters (fuel : Nat) (following : List Terminal) :
    Gives (parameters fuel following) fun ps => ∀ p ∈ ps, p.Named := by
  have close : ∀ ps : List Parameter, (∀ p ∈ ps, p.Named) →
      Gives (do let _ ← expect .closeParen following; return ps) fun ps => ∀ p ∈ ps, p.Named :=
    fun ps each => .after (keeps_expect _ _) fun _ => .pure each
  refine .after (keeps_expect _ _) fun _ => .after keeps_current fun t => .ite ?_ ?_
  · exact close [] (by simp)
  · exact .bind (gives_parameter fuel) fun first named => .bind (gives_parametersFrom fuel)
      fun rest each => close (first :: rest) (List.forall_mem_cons.mpr ⟨named, each⟩)

theorem keeps_pathFrom (fuel : Nat) : Keeps (pathFrom fuel) := by
  induction fuel with
  | zero => exact gives_unexpected
  | succ fuel ih =>
    exact .after keeps_current fun t => .ite (.after (keeps_take _) fun _ =>
      .after (keeps_expectName _) fun name => .after ih fun rest => .pure trivial) (.pure trivial)

theorem keeps_directiveArgument (fuel : Nat) : Keeps (directiveArgument fuel) := by
  refine .after keeps_current fun t => ?_
  split
  · exact .after (keeps_take _) fun token => .pure trivial
  · exact .after (keeps_expectName _) fun first => .after (keeps_pathFrom fuel) fun rest =>
      .pure trivial
  · exact gives_unexpected

theorem keeps_directiveArgumentsFrom (fuel : Nat) : Keeps (directiveArgumentsFrom fuel) := by
  induction fuel with
  | zero => exact gives_unexpected
  | succ fuel ih =>
    exact .after keeps_current fun t => .ite (.after (keeps_take _) fun _ =>
      .after (keeps_directiveArgument fuel) fun first => .after ih fun rest => .pure trivial)
      (.pure trivial)

theorem keeps_directive (fuel : Nat) : Keeps (directive fuel) := by
  refine .after keeps_currentLine fun line => .after (keeps_expect _ _) fun _ =>
    .after (keeps_expectName _) fun name => .after keeps_current fun t => .ite ?_ (.pure trivial)
  exact .after (keeps_take _) fun _ => .after (keeps_directiveArgument fuel) fun first =>
    .after (keeps_directiveArgumentsFrom fuel) fun rest => .after (keeps_expect _ _) fun _ =>
    .pure trivial

theorem keeps_directives (fuel : Nat) : Keeps (directives fuel) := by
  induction fuel with
  | zero => exact gives_unexpected
  | succ fuel ih =>
    exact .after keeps_current fun t => .ite (.after (keeps_directive fuel) fun first =>
      .after ih fun rest => .pure trivial) (.pure trivial)

theorem gives_functionFrom (fuel : Nat) (ds : List Directive) {name : String} (line : Nat)
    (hn : Lexeme.IsName name.toList) : Gives (functionFrom fuel ds name line) FunctionDecl.Named :=
  .bind (gives_parameters fuel _) fun _ parameters => .bind (gives_optionalType fuel)
    fun _ result => .bind (statementsNamed fuel).block fun _ body =>
    .pure ⟨hn, parameters, result, body⟩

theorem gives_member (fuel : Nat) :
    Gives (member fuel) (Sum.elim FieldDecl.Named FunctionDecl.Named) := by
  refine .after (keeps_directives fuel) fun ds => .after keeps_currentLine fun line =>
    .after keeps_current fun t => ?_
  split
  · have reserved : Lexeme.IsName "constructor".toList := ⟨by decide, List.all_eq_true.mp (by decide)⟩
    exact .after (keeps_take _) fun _ => .bind (gives_parameters fuel _) fun ps parameters =>
      .bind (statementsNamed fuel).block fun b body => .pure
        ⟨reserved, parameters, fun _ h => (nomatch h), body⟩
  · exact .after (keeps_take _) fun _ => .bind (gives_expectName _) fun name hn =>
      .bind (gives_functionFrom fuel ds line hn) fun f named => .pure named
  · refine .bind (gives_expectName _) fun name hn => .after keeps_current fun t => .ite ?_ ?_
    · exact .after (keeps_take _) fun _ => .bind (typesNamed fuel).type fun type named =>
        .after (keeps_expect _ _) fun _ => .pure ⟨hn, named⟩
    · exact .bind (gives_functionFrom fuel ds line hn) fun f named => .pure named
  · exact gives_unexpected

theorem gives_members (fuel : Nat) : Gives (members fuel) fun found =>
    (∀ f ∈ found.1, f.Named) ∧ ∀ f ∈ found.2, f.Named := by
  induction fuel with
  | zero => exact gives_unexpected
  | succ fuel ih =>
    refine .after keeps_current fun t => .ite (.pure (by simp)) ?_
    refine .bind (gives_member fuel) fun first named => .bind ih fun rest each => ?_
    cases first with
    | inl field => exact .pure ⟨List.forall_mem_cons.mpr ⟨named, each.1⟩, each.2⟩
    | inr function => exact .pure ⟨each.1, List.forall_mem_cons.mpr ⟨named, each.2⟩⟩

theorem gives_record (fuel : Nat) : Gives (record fuel) RecordDecl.Named := by
  refine .after keeps_currentLine fun line => .after (keeps_directives fuel) fun ds =>
    .after keeps_current fun t => ?_
  split
  iterate 2
    exact .after (keeps_take _) fun _ => .bind (gives_expectName _) fun name hn =>
      .after (keeps_expect _ _) fun _ => .bind (gives_members fuel) fun found each =>
      .after (keeps_expect _ _) fun _ => .pure ⟨hn, each.1, each.2⟩
  exact gives_unexpected

theorem gives_records (fuel : Nat) : Gives (records fuel) Program.Named := by
  induction fuel with
  | zero => exact gives_unexpected
  | succ fuel ih =>
    exact .after keeps_current fun t => .ite (.pure fun r h => by cases h) (.bind (gives_record fuel)
      fun first named => .bind ih fun rest each => .pure (List.forall_mem_cons.mpr ⟨named, each⟩))

end Reader

/-- All names in a program that a text writes are names. -/
theorem Program.named_of_read {source : String} {program : Program}
    (h : Program.read source = .ok program) : program.Named := by
  obtain ⟨⟨token, place⟩, hn, h⟩ := bind_eq_ok.mp h
  obtain ⟨⟨program', r⟩, hr, h⟩ := bind_eq_ok.mp h
  obtain rfl := pure_eq_ok.mp h
  exact (Reader.gives_records _ ⟨token, place⟩ (Token.sound_of_next hn) _ _ hr).2

end Covenant
