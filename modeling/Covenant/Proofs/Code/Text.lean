import Covenant.Code.Text
import Covenant.Proofs.Compile.Lines
import Covenant.Proofs.Json.Nested
import Covenant.Proofs.Text.Lines
import Mathlib.Data.List.TakeWhile
/-!
Written code is read back: the header, and each line with its operand. Only a text with a line end
beyond the ASCII range in it is cut where it was not written to be.
-/

namespace Covenant

open Decimal Json Text

/-! ## The header -/

namespace Header

/-- A header as it can be written: both names are there, without blanks, the first without points, and
the counts have no more digits than are read. -/
structure IsWritten (h : Header) : Prop where
  contract : h.contract ≠ ""
  plain : ∀ c ∈ h.contract.toList, c ≠ '.' ∧ isBlank c = false
  function : h.function ≠ ""
  visible : ∀ c ∈ h.function.toList, isBlank c = false
  parameters : (digits h.parameters).length ≤ digitLimit
  locals : (digits h.locals).length ≤ digitLimit

theorem after?_append (word : String) (s : List Char) : after? word (word.toList ++ s) = some s := by
  have isPrefix : word.toList.isPrefixOf (word.toList ++ s) = true :=
    List.isPrefixOf_iff_prefix.mpr (List.prefix_append _ _)
  rw [after?, if_pos isPrefix, ← String.length_toList, List.drop_left]

theorem takeWhile_append_cons {p : Char → Bool} {a : List Char} (h : ∀ c ∈ a, p c = true) {c : Char}
    (stop : p c = false) (s : List Char) : (a ++ c :: s).takeWhile p = a := by
  rw [List.takeWhile_append_of_pos h, List.takeWhile_cons_of_neg (by rw [stop]; decide), List.append_nil]

theorem digits?_digits (n : Nat) {c : Char} (stop : digit? c = none) (s : List Char) :
    digits? (digits n ++ c :: s) = some (digits n, c :: s) := by
  have all : (digits n ++ c :: s).takeWhile (fun c => (digit? c).isSome) = digits n := by
    refine takeWhile_append_cons (fun c hc => ?_) ?_ s
    · rw [digit?_of_isDigit (isDigit_of_mem_digits hc)]
      rfl
    · rw [stop]
      rfl
  have some : (digits n).length ≠ 0 := fun none => digits_ne_nil n (List.length_eq_zero_iff.mp none)
  rw [digits?]
  simp only [all, if_neg some, List.take_left, List.drop_left]

/-- What follows the names in a header. -/
def counts (h : Header) : List Char :=
  ("params=".toList ++ (digits h.parameters ++ ' ' :: ("locals=".toList ++ (digits h.locals ++ ' ' ::
    ("returns=".toList ++ [if h.returns then '1' else '0'])))))

theorem write_toList (h : Header) : h.write.toList = ".function ".toList ++ (h.contract.toList ++ '.' ::
    (h.function.toList ++ ' ' :: h.counts)) := by
  have point : ".".toList = ['.'] := by simp
  have params : " params=".toList = ' ' :: "params=".toList := by simp
  have locals : " locals=".toList = ' ' :: "locals=".toList := by simp
  have returns : " returns=".toList = ' ' :: "returns=".toList := by simp
  have bit : (if h.returns then "1" else "0").toList = [if h.returns then '1' else '0'] := by
    cases h.returns <;> simp
  unfold write counts
  simp only [Decimal.natural, String.toList_append, String.toList_ofList, point, params,
    locals, returns, bit, List.append_assoc, List.cons_append, List.nil_append]

theorem after?_cons {c : Char} {first word : String} (h : word.toList = c :: first.toList) (s : List Char) :
    after? word (c :: (first.toList ++ s)) = some s := by
  rw [← List.cons_append, ← h]
  exact after?_append word s

theorem parts?_write {h : Header} (w : h.IsWritten) : parts? h.write.toList =
    some (h.contract, h.function, digits h.parameters, digits h.locals, h.returns) := by
  have contract : (h.contract.toList ++ '.' :: (h.function.toList ++ ' ' :: h.counts)).takeWhile
      (fun c => c != '.' && !isBlank c) = h.contract.toList := by
    refine takeWhile_append_cons (fun c hc => ?_) rfl _
    obtain ⟨other, visible⟩ := w.plain c hc
    rw [visible, bne_iff_ne.mpr other]
    rfl
  have function : (h.function.toList ++ ' ' :: h.counts).takeWhile (fun c => !isBlank c) =
      h.function.toList := by
    refine takeWhile_append_cons (fun c hc => ?_) rfl _
    rw [w.visible c hc]
    rfl
  have named : (h.contract.toList.isEmpty || h.function.toList.isEmpty) = false := by
    have first : h.contract.toList ≠ [] := fun none => w.contract (String.toList_inj.mp none)
    have second : h.function.toList ≠ [] := fun none => w.function (String.toList_inj.mp none)
    simp [first, second]
  have sign : ".".toList = '.' :: "".toList := by simp
  have point : ∀ s, after? "." ('.' :: s) = some s := after?_cons sign
  have params : ∀ s, after? " params=" (' ' :: ("params=".toList ++ s)) = some s :=
    after?_cons (by simp)
  have locals : ∀ s, after? " locals=" (' ' :: ("locals=".toList ++ s)) = some s :=
    after?_cons (by simp)
  have returns : ∀ s, after? " returns=" (' ' :: ("returns=".toList ++ s)) = some s :=
    after?_cons (by simp)
  have space : digit? ' ' = none := by decide
  have parameters := digits?_digits h.parameters space
  have locals' := digits?_digits h.locals space
  rw [write_toList]
  unfold parts?
  simp only [after?_append, Option.bind_eq_bind, Option.bind_some, contract, List.drop_left, point, function,
    named, Bool.false_eq_true, if_false]
  unfold counts
  simp only [Option.bind_some, params, parameters, locals, locals', returns, String.ofList_toList]
  cases h.returns <;> rfl

theorem isLineEnd_of_isDigit {c : Char} (h : IsDigit c) : isLineEnd c = false := by
  have low : '0'.toNat ≤ c.toNat := h.1
  have high : c.toNat ≤ '9'.toNat := h.2
  simp only [Char.reduceToNat] at low high
  simp only [isLineEnd, Bool.or_eq_false_iff, Bool.and_eq_false_iff, decide_eq_false_iff_not,
    beq_eq_false_iff_ne]
  omega

theorem isLineEnd_of_visible {c : Char} (h : isBlank c = false) : isLineEnd c = false := by
  cases ends : isLineEnd c with
  | false => rfl
  | true =>
    rw [isBlank_of_isLineEnd ends] at h
    cases h

theorem counts_plain (h : Header) : ∀ c ∈ h.counts, isLineEnd c = false := by
  have digit : ∀ (n : Nat) (c : Char), c ∈ digits n → isLineEnd c = false :=
    fun n c hc => isLineEnd_of_isDigit (isDigit_of_mem_digits hc)
  have last : ∀ c ∈ [if h.returns then '1' else '0'], isLineEnd c = false :=
    forall_mem_of_any (by cases h.returns <;> decide)
  have params : ∀ c ∈ "params=".toList, isLineEnd c = false := forall_mem_of_any (by decide +kernel)
  have locals : ∀ c ∈ "locals=".toList, isLineEnd c = false := forall_mem_of_any (by decide +kernel)
  have returns : ∀ c ∈ "returns=".toList, isLineEnd c = false := forall_mem_of_any (by decide +kernel)
  refine List.forall_mem_append.mpr ⟨params, List.forall_mem_append.mpr ⟨digit _,
    List.forall_mem_cons.mpr ⟨rfl, List.forall_mem_append.mpr ⟨locals, List.forall_mem_append.mpr
      ⟨digit _, List.forall_mem_cons.mpr ⟨rfl, List.forall_mem_append.mpr ⟨returns, last⟩⟩⟩⟩⟩⟩⟩

theorem write_plain {h : Header} (w : h.IsWritten) : ∀ c ∈ h.write.toList, isLineEnd c = false := by
  have word : ∀ c ∈ ".function ".toList, isLineEnd c = false := forall_mem_of_any (by decide +kernel)
  rw [write_toList]
  exact List.forall_mem_append.mpr ⟨word, List.forall_mem_append.mpr
    ⟨fun c hc => isLineEnd_of_visible (w.plain c hc).2, List.forall_mem_cons.mpr ⟨rfl,
      List.forall_mem_append.mpr ⟨fun c hc => isLineEnd_of_visible (w.visible c hc),
        List.forall_mem_cons.mpr ⟨rfl, h.counts_plain⟩⟩⟩⟩⟩

theorem counts_getLast? (h : Header) : h.counts.getLast? = some (if h.returns then '1' else '0') := by
  unfold counts
  simp only [List.getLast?_append, List.getLast?_cons, List.getLast?_nil, Option.getD_none,
    Option.some_or, Option.getD_some]

/-- A header that has been written is read back. -/
theorem read_write {h : Header} (w : h.IsWritten) : read h.write.toList = .ok h := by
  have trimmed : trim h.write.toList = h.write.toList := by
    refine trim_of_ends ?_ ?_
    · rw [write_toList]
      rintro c ⟨⟩
      decide
    · rw [write_toList]
      intro c hc
      simp only [List.getLast?_append, List.getLast?_cons, counts_getLast?, Option.some_or,
        Option.getD_some, Option.mem_def, Option.some.injEq] at hc
      rw [← hc]
      split <;> decide
  rw [read, trimmed, parts?_write w]
  simp only [naturalOf?_digits w.parameters, naturalOf?_digits w.locals]

end Header

/-! ## Operands -/

def IsMark (c : Char) : Prop := IsDigit c ∨ c ∈ "nulltruefalseInfinity-+.".toList

theorem visible_of_isMark {c : Char} (h : IsMark c) : isBlank c = false := by
  rcases h with digit | letter
  · have low : '0'.toNat ≤ c.toNat := digit.1
    have high : c.toNat ≤ '9'.toNat := digit.2
    simp only [Char.reduceToNat] at low high
    simp only [isBlank, blankRanges, List.any_cons, List.any_nil, Bool.or_false, Bool.or_eq_false_iff,
      Bool.and_eq_false_iff, decide_eq_false_iff_not]
    omega
  · have all : ∀ c ∈ "nulltruefalseInfinity-+.".toList, isBlank c = false :=
      forall_mem_of_any (by decide +kernel)
    exact all c letter

theorem isMark_of_mem_signed {negative : Bool} {s : List Char} (h : ∀ c ∈ s, IsMark c) :
    ∀ c ∈ signed negative s, IsMark c := by
  cases negative with
  | true => exact List.forall_mem_cons.mpr ⟨.inr (by decide +kernel), h⟩
  | false => exact h

theorem isMark_of_isNumber {whole fraction exponent : List Char} {power : Int}
    (h : IsNumber whole fraction exponent power) :
    ∀ c ∈ whole ++ (pointed fraction ++ exponent), IsMark c := by
  have point : ∀ c ∈ pointed fraction, IsMark c := by
    unfold pointed
    split
    · nofun
    · exact List.forall_mem_cons.mpr ⟨.inr (by decide +kernel), fun c hc => .inl (h.decimals c hc)⟩
  refine List.forall_mem_append.mpr ⟨fun c hc => .inl (h.digits c hc),
    List.forall_mem_append.mpr ⟨point, fun c hc => ?_⟩⟩
  refine (h.scale.marks c hc).imp_right fun letter => ?_
  have all : ['e', '+', '-'] ⊆ "nulltruefalseInfinity-+.".toList := by simp
  exact all letter

/-- All that is written but strings is made of marks. -/
theorem isMark_of_mem_write {d : Datum} (h : Legible d) (plain : ∀ s, d ≠ .text s) :
    ∀ c ∈ (Json.write d).toList, IsMark c := by
  have word : ∀ s : String, s.toList.all (fun c => "nulltruefalseInfinity-+.".toList.contains c) = true →
      ∀ c ∈ s.toList, IsMark c := by
    intro s hs c hc
    exact .inr (List.contains_iff_mem.mp (List.all_eq_true.mp hs c hc))
  cases d with
  | null => exact word "null" (by decide +kernel)
  | boolean b =>
    cases b with
    | true => exact word "true" (by decide +kernel)
    | false => exact word "false" (by decide +kernel)
  | integer i =>
    rw [Json.write, integer_toList]
    exact isMark_of_mem_signed fun c hc => .inl (isDigit_of_mem_digits hc)
  | float x =>
    cases x with
    | nan => cases h
    | number negative r =>
      by_cases infinite : r.val = binary64.top
      · obtain rfl : r = ⟨binary64.top, by decide⟩ := Fin.ext infinite
        cases negative with
        | true => exact word "-Infinity" (by decide +kernel)
        | false => exact word "Infinity" (by decide +kernel)
      · obtain ⟨whole, fraction, exponent, power, parts, text, -⟩ := float_isNumber negative r infinite
        rw [Json.write, text]
        exact isMark_of_mem_signed (isMark_of_isNumber parts)
  | text s => exact absurd rfl (plain s)
  | bytes | key | list | record => cases h

/-- The only line ends of a written string are separators, which stand for themselves. -/
theorem isLineEnd_of_mem_escaped {c x : Char} (h : x ∈ escaped c) (ends : isLineEnd x = true) :
    x = c ∧ IsSeparator c := by
  have control : ∀ n < 0x20, ('\\' :: 'u' :: hexNatural 4 n).any isLineEnd = false := by decide
  have letters : (['"', '\\', 'n', 'r', 't', 'b', 'f'].any fun letter =>
      ['\\', letter].any isLineEnd) = false := by decide
  have pair := fun letter hl => forall_mem_of_any (forall_mem_of_any letters letter hl)
  have none : isLineEnd x = false → x = c ∧ IsSeparator c := by
    intro plain
    rw [plain] at ends
    cases ends
  unfold escaped at h
  split_ifs at h with quote backslash lineFeed carriageReturn tab backspace formFeed small
  · exact none (pair '"' (by decide) x h)
  · exact none (pair '\\' (by decide) x h)
  · exact none (pair 'n' (by decide) x h)
  · exact none (pair 'r' (by decide) x h)
  · exact none (pair 't' (by decide) x h)
  · exact none (pair 'b' (by decide) x h)
  · exact none (pair 'f' (by decide) x h)
  · exact none (forall_mem_of_any (control _ small) x h)
  · obtain rfl := List.mem_singleton.mp h
    refine ⟨rfl, ?_⟩
    simp only [isLineEnd, Bool.or_eq_true, Bool.and_eq_true, decide_eq_true_eq, beq_iff_eq] at ends
    unfold IsSeparator
    omega

/-- The line ends of what is written for a datum are the separators in a text. -/
theorem isLineEnd_of_mem_write {d : Datum} (h : Legible d) {x : Char} (hx : x ∈ (Json.write d).toList)
    (ends : isLineEnd x = true) : ∃ s, d = .text s ∧ x ∈ s.toList ∧ IsSeparator x := by
  by_cases text : ∃ s, d = .text s
  · obtain ⟨s, rfl⟩ := text
    have quote : isLineEnd '"' = false := by decide
    have other : x ≠ '"' := by
      rintro rfl
      rw [quote] at ends
      cases ends
    rw [Json.write, string_toList] at hx
    simp only [List.mem_cons, List.mem_append, List.not_mem_nil, or_false, other, false_or] at hx
    obtain ⟨c, hc, hx⟩ := List.mem_flatMap.mp hx
    obtain ⟨rfl, separator⟩ := isLineEnd_of_mem_escaped hx ends
    exact ⟨s, rfl, hc, separator⟩
  · have mark := isMark_of_mem_write h (fun s hs => text ⟨s, hs⟩) x hx
    have blank := isBlank_of_isLineEnd ends
    rw [visible_of_isMark mark] at blank
    cases blank

theorem write_ne_nil {d : Datum} (h : Legible d) : (Json.write d).toList ≠ [] := by
  intro none
  have read := read_write h 0
  rw [none] at read
  cases read

/-- What is written ends in something visible. -/
theorem write_getLast? {d : Datum} (h : Legible d) : ∀ c ∈ (Json.write d).toList.getLast?,
    isBlank c = false := by
  intro c hc
  by_cases text : ∃ s, d = .text s
  · obtain ⟨s, rfl⟩ := text
    rw [Json.write, string_toList, ← List.cons_append, List.getLast?_concat] at hc
    cases hc
    decide
  · exact visible_of_isMark (isMark_of_mem_write h (fun s hs => text ⟨s, hs⟩) c (List.mem_of_getLast? hc))

/-! ## Lines -/

namespace Line

theorem name_visible {line : Line} (w : line.IsWritten) :
    line.name ≠ "" ∧ ∀ c ∈ line.name.toList, isBlank c = false := by
  have all : ∀ entry ∈ completions, entry.1 ≠ "" ∧ entry.1.toList.any isBlank = false := by
    decide +kernel
  obtain ⟨completion, h, -⟩ := w
  obtain ⟨named, visible⟩ := all _ (mem_of_lookup h)
  exact ⟨named, forall_mem_of_any visible⟩

/-- A line that its word and operand complete, its operand being one that is read back. -/
structure IsLegible (line : Line) : Prop where
  written : line.IsWritten
  operand : Legible line.operand

variable {line : Line}

theorem write_toList (line : Line) : line.write.toList = line.name.toList ++
    match line.operand with
    | .null => []
    | operand => ' ' :: (Json.write operand).toList := by
  unfold write
  cases line.operand with
  | null => exact (List.append_nil _).symm
  | _ => simp [String.toList_append]

theorem write_cases (line : Line) :
    line.operand = .null ∧ line.write.toList = line.name.toList ∨
      line.operand ≠ .null ∧
        line.write.toList = line.name.toList ++ ' ' :: (Json.write line.operand).toList := by
  have text := write_toList line
  split at text
  next null => exact .inl ⟨null, by rw [text, List.append_nil]⟩
  next other => exact .inr ⟨other, text⟩

theorem IsLegible.trim_write (h : line.IsLegible) : trim line.write.toList = line.write.toList := by
  obtain ⟨named, visible⟩ := name_visible h.written
  have named' : line.name.toList ≠ [] := fun none => named (String.toList_inj.mp none)
  obtain ⟨-, text⟩ | ⟨-, text⟩ := line.write_cases <;> rw [text] <;> refine trim_of_ends ?_ ?_
  · exact fun c hc => visible c (List.mem_of_mem_head? hc)
  · exact fun c hc => visible c (List.mem_of_getLast? hc)
  · rw [List.head?_append_of_ne_nil _ named']
    exact fun c hc => visible c (List.mem_of_mem_head? hc)
  · have some : ' ' :: (Json.write line.operand).toList ≠ [] := List.cons_ne_nil _ _
    intro c hc
    rw [List.getLast?_append_of_ne_nil _ some, List.getLast?_cons_of_ne_nil (write_ne_nil h.operand)] at hc
    exact write_getLast? h.operand c hc

/-- A line that has been written is read back. -/
theorem read_write (h : line.IsLegible) (number : Nat) : Line.read number line.write.toList = .ok line := by
  obtain ⟨named, visible⟩ := name_visible h.written
  have word : ∀ c ∈ line.name.toList, (c != ' ') = true := by
    intro c hc
    rw [bne_iff_ne]
    rintro rfl
    have blank := visible ' ' hc
    revert blank
    decide
  obtain ⟨completion, known, completes⟩ := h.written
  have first : line.write.toList.takeWhile (· != ' ') = line.name.toList := by
    obtain ⟨-, text⟩ | ⟨-, text⟩ := line.write_cases <;> rw [text]
    · exact List.takeWhile_eq_self_iff.mpr word
    · exact Header.takeWhile_append_cons word rfl _
  have operand : readOperand line.name number (line.write.toList.drop (line.name.toList.length + 1)) =
      .ok line.operand := by
    obtain ⟨null, text⟩ | ⟨-, text⟩ := line.write_cases <;> rw [text]
    · have none : line.name.toList.drop (line.name.toList.length + 1) = [] :=
        List.drop_eq_nil_of_le (Nat.le_succ _)
      rw [none, null]
      rfl
    · have rest : (line.name.toList ++ ' ' :: (Json.write line.operand).toList).drop
          (line.name.toList.length + 1) = (Json.write line.operand).toList := by
        rw [← List.drop_drop, List.drop_left]
        rfl
      have some : (Json.write line.operand).toList.isEmpty = false := by
        cases hw : (Json.write line.operand).toList with
        | nil => exact absurd hw (write_ne_nil h.operand)
        | cons => rfl
      rw [rest, readOperand, some, Json.read_write h.operand Datum.nestingLimit]
      rfl
  rw [read, h.trim_write]
  simp only [first, String.ofList_toList, known, operand, ok_bind, completes]

theorem IsLegible.visible (h : line.IsLegible) : ∃ c ∈ line.write.toList, isBlank c = false := by
  obtain ⟨named, visible⟩ := name_visible h.written
  obtain ⟨c, rest, start⟩ := List.exists_cons_of_ne_nil
    (fun none : line.name.toList = [] => named (String.toList_inj.mp none))
  have hc : c ∈ line.name.toList := by rw [start]; exact List.mem_cons_self ..
  refine ⟨c, ?_, visible c hc⟩
  obtain ⟨-, text⟩ | ⟨-, text⟩ := line.write_cases <;> rw [text]
  · exact hc
  · exact List.mem_append_left _ hc

/-- The line ends in a written line are the separators in its operand. -/
theorem IsLegible.isLineEnd_of_mem (h : line.IsLegible) {x : Char} (hx : x ∈ line.write.toList)
    (ends : isLineEnd x = true) : ∃ s, line.operand = .text s ∧ x ∈ s.toList ∧ IsSeparator x := by
  have visible := (name_visible h.written).2
  have plain : x ∉ line.name.toList := by
    intro hx
    have shows := Header.isLineEnd_of_visible (visible x hx)
    rw [ends] at shows
    cases shows
  obtain ⟨-, text⟩ | ⟨-, text⟩ := line.write_cases
  · rw [text] at hx
    exact absurd hx plain
  · rw [text] at hx
    rcases List.mem_append.mp hx with hx | hx
    · exact absurd hx plain
    rcases List.mem_cons.mp hx with rfl | hx
    · cases ends
    · exact isLineEnd_of_mem_write h.operand hx ends

/-- A separator in the operand of a line: something visible stands on both sides of it. -/
theorem split_at {s : String} (text : line.operand = .text s) {c : Char}
    (hc : c ∈ s.toList) (separator : IsSeparator c) :
    ∃ before after, line.write.toList = before ++ c :: after ∧
      (∃ d ∈ before, isBlank d = false) ∧ ∃ d ∈ after, isBlank d = false := by
  obtain ⟨a, b, split⟩ := List.append_of_mem hc
  have stays : escaped c = [c] := by
    have large : 0x80 ≤ c.toNat := by
      unfold IsSeparator at separator
      omega
    have other : ∀ d : Char, d.toNat < 0x80 → c ≠ d := by
      rintro d small rfl
      omega
    unfold escaped
    rw [if_neg (other '"' (by decide)), if_neg (other '\\' (by decide)), if_neg (other '\n' (by decide)),
      if_neg (other '\r' (by decide)), if_neg (other '\t' (by decide)), if_neg (by omega), if_neg (by omega),
      if_neg (by omega)]
  obtain ⟨null, -⟩ | ⟨-, written⟩ := line.write_cases
  · rw [text] at null
    cases null
  · refine ⟨line.name.toList ++ ' ' :: '"' :: a.flatMap escaped, b.flatMap escaped ++ ['"'], ?_,
      ⟨'"', by simp, rfl⟩, ⟨'"', by simp, rfl⟩⟩
    rw [written, text, Json.write, string_toList, split, List.flatMap_append, List.flatMap_cons, stays]
    simp

end Line

/-! ## Code -/

namespace Code

def writtenLines (code : Code) : List Char := code.flatMap fun line => line.write.toList ++ ['\n']

theorem write_toList (header : Header) (code : Code) :
    (write header code).toList = header.write.toList ++ '\n' :: writtenLines code := by
  have lines : ∀ (first : String) (rest : List String), ("\n".intercalate (first :: rest) ++ "\n").toList =
      first.toList ++ '\n' :: rest.flatMap fun s => s.toList ++ ['\n'] := by
    intro first rest
    have feed : "\n".toList = ['\n'] := by simp
    rw [String.toList_append, String.toList_intercalate, feed]
    induction rest generalizing first with
    | nil => simp [List.intercalate]
    | cons second rest ih =>
      have step : ['\n'].intercalate (List.map String.toList (first :: second :: rest)) =
          first.toList ++ ['\n'] ++ ['\n'].intercalate (List.map String.toList (second :: rest)) := by
        simp [List.intercalate]
      rw [step, List.append_assoc, ih second]
      simp
  rw [write, lines, writtenLines, List.flatMap_map]

theorem readLines_written {code : Code} (h : ∀ line ∈ code, line.IsLegible) (number : Nat) :
    readLines number (code.map fun line => line.write.toList) = .ok code := by
  induction code generalizing number with
  | nil => rfl
  | cons line code ih =>
    rw [List.map_cons, readLines, Line.read_write (h line (List.mem_cons_self ..)), ok_bind,
      ih fun l hl => h l (List.mem_cons_of_mem _ hl)]
    rfl

theorem length_of_readLines {number : Nat} {lines : List (List Char)} {code : Code}
    (h : readLines number lines = .ok code) : code.length = lines.length := by
  induction lines generalizing number code with
  | nil =>
    cases h
    rfl
  | cons first rest ih =>
    obtain ⟨line, -, h⟩ := bind_eq_ok.mp h
    obtain ⟨code', h', h⟩ := bind_eq_ok.mp h
    cases h
    rw [List.length_cons, List.length_cons, ih h']

/-- Without separators the lines of written code are its lines. -/
theorem shown_writtenLines {code : Code} (h : ∀ line ∈ code, line.IsLegible)
    (plain : ∀ line ∈ code, ∀ c ∈ line.write.toList, isLineEnd c = false) :
    shown (writtenLines code) = code.map fun line => line.write.toList := by
  induction code with
  | nil => rfl
  | cons line code ih =>
    have first := plain line (List.mem_cons_self ..)
    have visible := (h line (List.mem_cons_self ..)).visible
    have split : writtenLines (line :: code) = line.write.toList ++ '\n' :: writtenLines code := by
      simp [writtenLines]
    rw [split, shown_line first visible, ih (fun l hl => h l (List.mem_cons_of_mem _ hl))
      fun l hl => plain l (List.mem_cons_of_mem _ hl)]
    rfl

/-- There are at least as many lines as lines of code, and more when a line end stands in one of them. -/
theorem length_le_shown {code : Code} (h : ∀ line ∈ code, line.IsLegible) :
    code.length ≤ (shown (writtenLines code)).length ∧
      ∀ line ∈ code, ∀ s, line.operand = .text s → (∃ c ∈ s.toList, IsSeparator c) →
        code.length < (shown (writtenLines code)).length := by
  induction code with
  | nil => exact ⟨Nat.zero_le _, nofun⟩
  | cons line code ih =>
    have legible := h line (List.mem_cons_self ..)
    obtain ⟨least, more⟩ := ih fun l hl => h l (List.mem_cons_of_mem _ hl)
    have split : writtenLines (line :: code) = line.write.toList ++ '\n' :: writtenLines code := by
      simp [writtenLines]
    have noReturn : '\r' ∉ line.write.toList := by
      intro hx
      obtain ⟨s, -, -, separator⟩ := legible.isLineEnd_of_mem hx rfl
      revert separator
      decide
    have one : (shown (writtenLines code)).length < (shown (writtenLines (line :: code))).length := by
      rw [split]
      exact shown_before noReturn rfl (by decide) [] _ legible.visible
    rw [List.length_cons]
    refine ⟨Nat.lt_of_le_of_lt least one, ?_⟩
    intro cut hcut s text separator
    rcases List.mem_cons.mp hcut with rfl | hcut
    · -- the line is cut at the separator, with its word before and its closing quote after
      obtain ⟨c, hc, separator⟩ := separator
      have ends := isLineEnd_of_isSeparator separator
      have other : c ≠ '\r' := by
        rintro rfl
        revert separator
        decide
      obtain ⟨before, after, start, last⟩ := Line.split_at text hc separator
      rw [split, start, List.append_assoc, List.cons_append]
      rw [start] at noReturn
      simp only [List.mem_append, List.mem_cons, not_or] at noReturn
      have first : (shown (after ++ '\n' :: writtenLines code)).length <
          (shown (before ++ c :: (after ++ '\n' :: writtenLines code))).length :=
        shown_before noReturn.1 ends other [] _ last.1
      have second : (shown (writtenLines code)).length < (shown (after ++ '\n' :: writtenLines code)).length :=
        shown_before noReturn.2.2 rfl (by decide) [] _ last.2
      omega
    · exact Nat.lt_of_le_of_lt (more cut hcut s text separator) one

end Code

/-- Written code is read back as the header and the lines that were written, as long as the names,
the numbers of digits and the operands are ones that can be written, just when no text in it holds a
next line, a line separator or a paragraph separator: these are written as they are and read as the
end of a line. -/
theorem written_code_is_read {header : Header} {code : Code} (named : header.IsWritten)
    (legible : ∀ line ∈ code, line.IsLegible) :
    Code.read (Code.write header code) = .ok (header, code) ↔
      ∀ line ∈ code, ∀ s, line.operand = .text s → ∀ c ∈ s.toList, ¬ IsSeparator c := by
  have visible : ∃ c ∈ header.write.toList, isBlank c = false := by
    refine ⟨'.', ?_, rfl⟩
    rw [Header.write_toList]
    exact List.mem_append_left _ (by simp)
  have lines : shown (Code.write header code).toList =
      header.write.toList :: shown (Code.writtenLines code) := by
    rw [Code.write_toList, shown_line (Header.write_plain named) visible]
  have read : Code.read (Code.write header code) = (do
      let lines ← Code.readLines 2 (shown (Code.writtenLines code))
      return (header, lines)) := by
    have cut : (Text.lines (Code.write header code).toList).filter (fun line => !(trim line).isEmpty) =
        header.write.toList :: shown (Code.writtenLines code) := lines
    simp only [Code.read, cut, Header.read_write named, ok_bind]
  rw [read, bind_eq_ok]
  constructor
  · rintro ⟨code', read, same⟩ line hl s text c hc separator
    cases same
    have more := (Code.length_le_shown legible).2 line hl s text ⟨c, hc, separator⟩
    rw [Code.length_of_readLines read] at more
    exact Nat.lt_irrefl _ more
  · intro plain
    refine ⟨code, ?_, rfl⟩
    rw [Code.shown_writtenLines legible fun line hl c hc => ?_]
    · exact Code.readLines_written legible 2
    · cases ends : isLineEnd c with
      | false => rfl
      | true =>
        obtain ⟨s, text, hc, separator⟩ := (legible line hl).isLineEnd_of_mem hc ends
        exact absurd separator (plain line hl s text c hc)

/-- Code that pushes a text with a line feed and a quote in it, and a fraction. -/
def quotedCode : Code :=
  [.instruction (.push (.primitive .string) (.text "a\n\"b")),
    .instruction (.push (.primitive .f64) (.float (.number true ⟨0x3fb999999999999a, by decide⟩))),
    .instruction .drop, .instruction .leaveValue]

theorem quotedCode_is_read :
    Code.read (Code.write ⟨"R", "f", 0, 0, true⟩ quotedCode) = .ok (⟨"R", "f", 0, 0, true⟩, quotedCode) := by
  have plain : ∀ c ∈ "R".toList, c ≠ '.' ∧ isBlank c = false := by
    intro c hc
    have letter : c = 'R' := by simpa using hc
    rw [letter]
    decide
  have visible : ∀ c ∈ "f".toList, isBlank c = false := forall_mem_of_any (by decide +kernel)
  have separators : ∀ c ∈ "a\n\"b".toList, decide (IsSeparator c) = false :=
    forall_mem_of_any (by decide +kernel)
  refine (written_code_is_read ⟨by decide, plain, by decide, visible, by decide, by decide⟩ ?_).mpr ?_
  · intro line hl
    simp only [quotedCode, List.mem_cons, List.not_mem_nil, or_false] at hl
    rcases hl with rfl | rfl | rfl | rfl <;> exact ⟨⟨_, rfl, rfl⟩, by first | exact True.intro | rfl⟩
  · intro line hl s text
    simp only [quotedCode, List.mem_cons, List.not_mem_nil, or_false] at hl
    rcases hl with rfl | rfl | rfl | rfl <;> cases text
    exact fun c hc => of_decide_eq_false (separators c hc)

/-- Code that pushes a text with a line separator in it. -/
def separatedCode : Code :=
  [.instruction (.push (.primitive .string) (.text "\u2028")), .instruction .leaveValue]

/-- Such code can be written, and what is written is not read back. -/
theorem separatedCode_is_not_read : (∀ line ∈ separatedCode, line.IsWritten) ∧
    Code.read (Code.write ⟨"R", "f", 0, 0, true⟩ separatedCode) ≠
      .ok (⟨"R", "f", 0, 0, true⟩, separatedCode) := by
  constructor
  · intro line hl
    simp only [separatedCode, List.mem_cons, List.not_mem_nil, or_false] at hl
    rcases hl with rfl | rfl <;> exact ⟨_, rfl, rfl⟩
  · intro read
    have fails : (Code.read (Code.write ⟨"R", "f", 0, 0, true⟩ separatedCode)).toOption.isNone = true := by
      decide +kernel
    rw [read] at fails
    cases fails

end Covenant
