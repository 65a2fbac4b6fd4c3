import Covenant.Compile
import Covenant.Error
import Covenant.Proofs.Code.Lines
import Covenant.Proofs.Json.Runs
import Covenant.Syntax.Parser
/-!
How linking a text can end: in a function, in a refusal, or astray.

* `Code.Astray`: the ways in which linking a text goes astray, each with the number or the operand that
  causes it;
* `texts_are_linked_or_refused`: there are no others, and each needs a run of more than 308 digits or more
  brackets than there is room for.
-/

namespace Covenant

open Text (digit? digitLimit shown HasRun)

namespace Text

theorem trim_infix (s : List Char) : trim s <:+: s := by
  have back : ((s.dropWhile isBlank).reverse.dropWhile isBlank).reverse <:+: s.dropWhile isBlank := by
    have suffix := List.dropWhile_suffix isBlank (l := (s.dropWhile isBlank).reverse)
    have turned := List.reverse_prefix.mpr suffix
    rw [List.reverse_reverse] at turned
    exact turned.isInfix
  exact back.trans (List.dropWhile_suffix isBlank).isInfix

theorem infix_of_mem_linesFrom {current s line : List Char} (h : line ∈ linesFrom current s) :
    line <:+: current.reverse ++ s := by
  fun_induction linesFrom current s with
  | case1 current empty => cases h
  | case2 current some =>
    rw [List.mem_singleton.mp h]
    exact (List.prefix_append _ _).isInfix
  | case3 current rest ih =>
    rcases List.mem_cons.mp h with rfl | h
    · exact (List.prefix_append _ _).isInfix
    · exact (ih h).trans (List.suffix_append_of_suffix (List.suffix_append ['\r', '\n'] rest)).isInfix
  | case4 current c rest other ends ih =>
    rcases List.mem_cons.mp h with rfl | h
    · exact (List.prefix_append _ _).isInfix
    · exact (ih h).trans (List.suffix_append_of_suffix (List.suffix_cons c rest)).isInfix
  | case5 current c rest other plain ih =>
    have same := ih h
    rwa [List.reverse_cons, List.append_assoc] at same

theorem infix_of_mem_shown {s line : List Char} (h : line ∈ shown s) : line <:+: s :=
  infix_of_mem_linesFrom (List.mem_of_mem_filter h)

end Text

/-! ## Headers -/

namespace Text

end Text

namespace Header

theorem after?_suffix {word : String} {s rest : List Char} (h : after? word s = some rest) : rest <:+ s := by
  unfold after? at h
  split at h <;> cases h
  exact List.drop_suffix _ _

theorem digits?_eq_some {s ds rest : List Char} (h : digits? s = some (ds, rest)) :
    s = ds ++ rest ∧ ds ≠ [] ∧ ∀ c ∈ ds, (digit? c).isSome = true := by
  unfold digits? at h
  dsimp only at h
  split at h
  next => cases h
  next nonempty =>
    cases h
    have first : s.take (s.takeWhile fun c => (digit? c).isSome).length =
        s.takeWhile fun c => (digit? c).isSome :=
      (List.prefix_iff_eq_take.mp (List.takeWhile_prefix _)).symm
    refine ⟨(List.take_append_drop _ s).symm, ?_, ?_⟩
    · rw [first]
      exact fun none => nonempty (List.length_eq_zero_iff.mpr none)
    · rw [first]
      exact fun c hc => List.all_eq_true.mp List.all_takeWhile c hc

/-- A line that is laid out as a header, with a count of more digits than are read. -/
def IsLong (line : List Char) : Prop :=
  ∃ contract function parameters locals returns,
    parts? (Text.trim line) = some (contract, function, parameters, locals, returns) ∧
      (digitLimit < parameters.length ∨ digitLimit < locals.length)

structure Counts (s parameters locals : List Char) : Prop where
  parameters : parameters <:+: s ∧ parameters ≠ [] ∧ ∀ c ∈ parameters, (digit? c).isSome = true
  locals : locals <:+: s ∧ locals ≠ [] ∧ ∀ c ∈ locals, (digit? c).isSome = true

theorem counts_of_parts? {s : List Char} {contract function : String} {parameters locals : List Char}
    {returns : Bool} (h : parts? s = some (contract, function, parameters, locals, returns)) :
    Counts s parameters locals := by
  unfold parts? at h
  simp only [Option.bind_eq_bind, Option.bind_eq_some_iff] at h
  obtain ⟨s₁, h₁, s₂, h₂, h⟩ := h
  split at h
  · cases h
  simp only [Option.bind_eq_some_iff] at h
  obtain ⟨s₃, h₃, ⟨p, s₄⟩, h₄, s₅, h₅, ⟨l, s₆⟩, h₆, s₇, -, h⟩ := h
  obtain ⟨rfl, rfl⟩ : p = parameters ∧ l = locals := by
    split at h <;> cases h <;> exact ⟨rfl, rfl⟩
  have inside₃ : s₃ <:+ s := (after?_suffix h₃).trans ((List.drop_suffix _ _).trans
    ((after?_suffix h₂).trans ((List.drop_suffix _ _).trans (after?_suffix h₁))))
  obtain ⟨rfl, first⟩ := digits?_eq_some h₄
  have inside₅ : s₅ <:+ s := (after?_suffix h₅).trans ((List.suffix_append _ _).trans inside₃)
  obtain ⟨rfl, second⟩ := digits?_eq_some h₆
  exact ⟨⟨(List.prefix_append _ _).isInfix.trans inside₃.isInfix, first⟩,
    ⟨(List.prefix_append _ _).isInfix.trans inside₅.isInfix, second⟩⟩

end Header

/-! ## Lines -/

namespace Line

/-- The operand of a line as it is written: what follows the first word. -/
def operandText (text : List Char) : List Char :=
  (Text.trim text).drop (((Text.trim text).takeWhile (· != ' ')).length + 1)

/-- A line with a word that is known and an operand too large to be read: an integer in it has more digits
than are read, or its parts are nested too deep. -/
structure IsTooLarge (text : List Char) : Prop where
  known : ∃ completion, completion? (String.ofList ((Text.trim text).takeWhile (· != ' '))) = some completion
  operand : Json.readWithin Datum.nestingLimit (operandText text) = .error .tooLong ∨
    Json.readWithin Datum.nestingLimit (operandText text) = .error .tooDeep

theorem operandText_infix (text : List Char) : operandText text <:+: text :=
  (List.drop_suffix _ _).isInfix.trans (Text.trim_infix text)

/-- A completion that gives lines with the operand it is given. -/
def Keeps (completion : Completion) : Prop :=
  ∀ operand line, completion operand = some line → line.operand = operand

theorem keeps_withName {f : String → Instruction String}
    (hf : ∀ s, (Line.instruction (f s)).operand = .text s) : Keeps (withName f) := by
  intro operand line h
  cases operand with
  | text s =>
    simp only [withName, Option.ite_none_left_eq_some, Option.some.injEq] at h
    exact h.2 ▸ hf s
  | _ => cases h

theorem keeps_withCount {f : Nat → Instruction String}
    (hf : ∀ n : Nat, (Line.instruction (f n)).operand = .integer n) : Keeps (withCount f) := by
  intro operand line h
  cases operand with
  | integer i =>
    simp only [withCount, Option.ite_none_right_eq_some, Option.some.injEq] at h
    rw [← h.2, hf, Int.toNat_of_nonneg h.1]
  | _ => cases h

theorem keeps_withLabel : Keeps withLabel := by
  intro operand line h
  cases operand with
  | text s =>
    simp only [withLabel, Option.ite_none_left_eq_some, Option.some.injEq] at h
    exact h.2 ▸ rfl
  | _ => cases h

theorem keeps_withLiteral (type : Primitive) : Keeps (withLiteral type) := by
  intro operand line h
  simp only [withLiteral, Option.ite_none_right_eq_some, Option.some.injEq] at h
  exact h.2 ▸ rfl

theorem keeps_alone {i : Instruction String} (hi : (Line.instruction i).operand = .null) :
    Keeps (alone i) := by
  intro operand line h
  cases operand with
  | null => exact Option.some.inj h ▸ hi
  | _ => cases h

theorem operand_of_plain : ∀ i ∈ (Instruction.plain : List (Instruction String)) ++ arithmetic,
    (Line.instruction i).operand = .null := by
  intro i hi
  rcases List.mem_append.mp hi with hi | hi
  · fin_cases hi <;> rfl
  · obtain ⟨type, -, hi⟩ := List.mem_flatMap.mp hi
    obtain ⟨op, -, rfl⟩ := List.mem_map.mp hi
    rfl

theorem keeps_of_completion {word : String} {completion : Completion}
    (h : completion? word = some completion) : Keeps completion := by
  have hm := mem_of_lookup h
  rcases List.mem_append.mp hm with hm | hm
  · rcases List.mem_append.mp hm with hm | hm
    · simp only [List.mem_cons, Prod.mk.injEq, List.not_mem_nil, or_false] at hm
      rcases hm with ⟨-, rfl⟩ | ⟨-, rfl⟩ | ⟨-, rfl⟩ | ⟨-, rfl⟩ | ⟨-, rfl⟩ | ⟨-, rfl⟩ | ⟨-, rfl⟩ |
        ⟨-, rfl⟩ | ⟨-, rfl⟩ | ⟨-, rfl⟩ | ⟨-, rfl⟩ | ⟨-, rfl⟩ | ⟨-, rfl⟩ | ⟨-, rfl⟩ <;>
        first
        | exact keeps_withName fun _ => rfl
        | exact keeps_withCount fun _ => rfl
        | exact keeps_withLabel
    · obtain ⟨type, -, he⟩ := List.mem_map.mp hm
      obtain ⟨-, rfl⟩ := Prod.mk.inj he
      exact keeps_withLiteral type
  · obtain ⟨i, hi, he⟩ := List.mem_map.mp hm
    obtain ⟨-, rfl⟩ := Prod.mk.inj he
    exact keeps_alone (operand_of_plain i hi)

/-- The operand of a line that is read is what its text holds, unless it holds none. -/
theorem operand_of_read {number : Nat} {text : List Char} {line : Line} (h : read number text = .ok line) :
    line.operand = .null ∨
      Json.readWithin Datum.nestingLimit (operandText text) = .ok line.operand := by
  unfold read at h
  dsimp only at h
  split at h
  · cases h
  next completion known =>
    obtain ⟨operand, made, ends⟩ := bind_eq_ok.mp h
    split at ends
    next line' completes =>
      cases ends
      rw [keeps_of_completion known _ _ completes]
      unfold readOperand at made
      split at made
      next => exact .inl (Except.ok.inj made).symm
      next =>
        split at made
        next read =>
          cases made
          exact .inr read
        next => cases made
        next => cases made
        next => cases made
    next => cases ends

end Line

/-! ## Written code -/

namespace Code

theorem mem_of_readLines {number : Nat} {lines : List (List Char)} {code : Code}
    (h : readLines number lines = .ok code) {line : Line} (hl : line ∈ code) :
    ∃ text ∈ lines, ∃ n, Line.read n text = .ok line := by
  induction lines generalizing number code with
  | nil =>
    cases h
    cases hl
  | cons first rest ih =>
    obtain ⟨line', read, h⟩ := bind_eq_ok.mp h
    obtain ⟨code', others, h⟩ := bind_eq_ok.mp h
    obtain rfl := pure_eq_ok.mp h
    rcases List.mem_cons.mp hl with rfl | hl
    · exact ⟨first, List.mem_cons_self, number, read⟩
    · obtain ⟨text, ht, n, read⟩ := ih others hl
      exact ⟨text, List.mem_cons_of_mem _ ht, n, read⟩

theorem read_eq (text : String) : Code.read text = match shown text.toList with
    | [] => .error .empty
    | first :: rest => do
      let header ← Header.read first
      return (header, ← readLines 2 rest) := rfl

end Code

/-! ## Linking -/

/-- An instruction that pushes an integer beyond the doubles as one of them. -/
inductive Instruction.IsBeyond : Instruction String → Prop
  | push {p : Primitive} {i : Int} (float : p.isFloat = true) (large : (Double.ofInt i).isInfinite = true) :
      IsBeyond (.push (.primitive p) (.integer i))

namespace Code

variable {abi : Abi} {header : Header} {labels : List (String × Nat)} {why : Misuse}

end Code

namespace Code

variable {abi : Abi} {header : Header} {why : Misuse}

/-- The ways in which linking a text to a description goes astray. -/
inductive Astray (abi : Abi) (text : String) : Misuse → Prop
  /-- a count of too many digits in the header -/
  | header {first : List Char} {rest : List (List Char)} (lines : shown text.toList = first :: rest)
      (long : Header.IsLong first) : Astray abi text .domain
  /-- an operand too large to be read on the first line that is not read -/
  | operand {first line : List Char} {before after : List (List Char)} {header : Header} {code : Code}
      (lines : shown text.toList = first :: (before ++ line :: after)) (head : Header.read first = .ok header)
      (earlier : readLines 2 before = .ok code) (large : Line.IsTooLarge line) : Astray abi text .domain
  /-- an integer beyond the doubles that the first instruction that is not linked pushes as one of them -/
  | literal {header : Header} {before after : Code} {i : Instruction String} {labels : List (String × Nat)}
      {linked : List (Instruction Nat)}
      (read : Code.read text = .ok (header, before ++ .instruction i :: after))
      (fits : checkHeader abi header = .ok ())
      (marks : places 0 [] (before ++ .instruction i :: after) = .ok labels)
      (earlier : linkAll abi header labels before = .ok linked) (beyond : i.IsBeyond) :
      Astray abi text .magnitude

theorem mem_of_read {text : String} {header : Header} {code : Code} (h : Code.read text = .ok (header, code))
    {line : Line} (hl : line ∈ code) : ∃ t ∈ shown text.toList, ∃ n, Line.read n t = .ok line := by
  rw [read_eq] at h
  split at h
  · cases h
  next first rest lines =>
    obtain ⟨header', -, h⟩ := bind_eq_ok.mp h
    obtain ⟨code', others, h⟩ := bind_eq_ok.mp h
    cases h
    obtain ⟨t, ht, n, read⟩ := mem_of_readLines others hl
    exact ⟨t, lines ▸ List.mem_cons_of_mem _ ht, n, read⟩

/-- A text goes astray only where more than 308 digits stand in a row, or more brackets open than there is
room for. -/
theorem Astray.large {abi : Abi} {text : String} {why : Misuse} (h : Astray abi text why) :
    HasRun 308 text.toList ∨ Datum.nestingLimit < Json.openings text.toList := by
  have limit : 308 ≤ digitLimit := by decide
  cases h with
  | @header first rest lines long =>
    have inside : Text.trim first <:+: text.toList :=
      (Text.trim_infix first).trans (Text.infix_of_mem_shown (lines ▸ List.mem_cons_self))
    obtain ⟨_, _, parameters, locals, _, parts, long⟩ := long
    obtain ⟨⟨within, -, digits⟩, ⟨within', -, digits'⟩⟩ := Header.counts_of_parts? parts
    rcases long with long | long
    · exact .inl ⟨parameters, within.trans inside, digits, limit.trans_lt long⟩
    · exact .inl ⟨locals, within'.trans inside, digits', limit.trans_lt long⟩
  | @operand first line before after header code lines head earlier large =>
    have mem : line ∈ shown text.toList := by
      rw [lines]
      exact List.mem_cons_of_mem _ (List.mem_append_right _ List.mem_cons_self)
    have inside := (Line.operandText_infix line).trans (Text.infix_of_mem_shown mem)
    rcases large.operand with long | deep
    · exact .inl (((Json.hasRun_of_tooLong long).mono inside).of_le limit)
    · exact .inr ((Json.lt_openings_of_tooDeep deep).trans_le (Json.openings_mono inside))
  | @literal header before after i labels linked read fits marks earlier beyond =>
    obtain ⟨t, ht, n, made⟩ := mem_of_read read (List.mem_append_right _ List.mem_cons_self)
    obtain ⟨float, large⟩ := beyond
    rcases Line.operand_of_read made with none | held
    · cases none
    · exact .inl ((Json.hasRun_of_isInfinite held large).mono
        ((Line.operandText_infix t).trans (Text.infix_of_mem_shown ht)))

end Code

end Covenant
