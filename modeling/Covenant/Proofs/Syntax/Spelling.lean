import Covenant.Proofs.Syntax.Lexing
import Covenant.Syntax.Expected
/-!
Texts that are one token, and tokens in a row.

* `IsWord`, `IsNumber`, `IsString`: texts that are a name, a number or a string as a whole;
* `isString_literal`, `stringValue_literal`: each text can be written as a string, in either quotes;
* `StandsAt`: a token stands at the start of a text, whenever it is expected;
* `stands_spaced`: tokens that are written with blanks before them stand there in a row.
-/

namespace Covenant

namespace Lexeme

def IsWord (w : List Char) : Prop := w ≠ [] ∧ nameSize w = w.length

def IsNumber (w : List Char) : Prop := w ≠ [] ∧ numberSize w = w.length

def IsString (w : List Char) : Prop := w ≠ [] ∧ stringSize w = w.length

instance (w : List Char) : Decidable (IsWord w) := inferInstanceAs (Decidable (_ ∧ _))

instance (w : List Char) : Decidable (IsNumber w) := inferInstanceAs (Decidable (_ ∧ _))

variable {expected : List Terminal} {w : List Char}

theorem match?_word (word : IsWord w) (name : .name ∈ expected) (key : .keyLiteral ∉ expected)
    (other : ∀ f ∈ Terminal.fixed, f.1 ∈ expected → f.2 ≠ w) :
    match? expected w = some (.name, w.length) := by
  have none : Terminal.fixed.find? (fun f => decide (f.1 ∈ expected) && f.2 == w) = none := by
    refine List.find?_eq_none.mpr fun f hf found => ?_
    rw [Bool.and_eq_true, decide_eq_true_eq, beq_iff_eq] at found
    exact other f hf found.1 found.2
  have some : w.length ≠ 0 := fun h => word.1 (List.length_eq_zero_iff.mp h)
  simp only [match?, List.contains_eq_mem, key, name, word.2, List.take_length, none, decide_true, decide_false,
    Bool.false_and, Bool.true_and, Bool.false_eq_true, if_false, bne_iff_ne, ne_eq, some, not_false_eq_true, if_true]

theorem isNameStart_of_isDigit {c : Char} (h : isDigit c = true) : isNameStart c = false := by
  rw [isDigit, Bool.and_eq_true, decide_eq_true_eq, decide_eq_true_eq] at h
  simp only [Bool.eq_false_iff, isNameStart, ne_eq, Bool.or_eq_true, Bool.and_eq_true, decide_eq_true_eq, beq_iff_eq]
  rintro ((small | large) | rfl)
  · exact absurd (Char.le_trans small.1 h.2) (by decide)
  · exact absurd (Char.le_trans large.1 h.2) (by decide)
  · exact absurd h.2 (by decide)

theorem match?_number (number : IsNumber w) (here : .number ∈ expected) (key : .keyLiteral ∉ expected) :
    match? expected w = some (.number, w.length) := by
  have some : w.length ≠ 0 := fun h => number.1 (List.length_eq_zero_iff.mp h)
  have name : nameSize w = 0 := by
    obtain ⟨c, v, rfl⟩ := List.exists_cons_of_ne_nil number.1
    have digit : isDigit c = true := by
      by_contra other
      have none : numberSize (c :: v) = 0 := by
        rw [numberSize, List.takeWhile_cons_of_neg other]
        rfl
      exact some (number.2.symm.trans none)
    rw [nameSize, isNameStart_of_isDigit digit]
    rfl
  simp only [match?, List.contains_eq_mem, key, here, name, number.2, decide_true, decide_false, bne_self_eq_false,
    Bool.and_false, Bool.false_and, Bool.true_and, Bool.false_eq_true, if_false, bne_iff_ne, ne_eq, some,
    not_false_eq_true, if_true]

theorem match?_string (string : IsString w) (here : .string ∈ expected) :
    match? expected w = some (.string, w.length) := by
  have some : stringSize w ≠ 0 := fun h => string.1 (List.length_eq_zero_iff.mp (string.2 ▸ h))
  obtain ⟨quote, rest, -, is, rfl, -⟩ := exists_quote some
  rw [match?_quote is, if_pos ⟨here, some⟩, string.2]

/-! ## Strings -/

/-- A text as it stands between quotes: backslashes, quotes and line feeds are written with a backslash. -/
def escaped (quote : Char) : List Char → List Char
  | [] => []
  | c :: rest =>
    if c = '\n' then '\\' :: 'n' :: escaped quote rest
    else if c = '\\' ∨ c = quote then '\\' :: c :: escaped quote rest
    else c :: escaped quote rest

/-- A string with a text as its value. -/
def literal (quote : Char) (s : List Char) : List Char := quote :: escaped quote s ++ [quote]

variable {quote : Char}

theorem stringBodySize_escaped (is : IsQuote quote) (s u : List Char) :
    stringBodySize quote (escaped quote s ++ quote :: u) = some ((escaped quote s).length + 1) := by
  have plain : quote ≠ '\\' := by
    rintro rfl
    rcases is with h | h <;> cases h
  induction s with
  | nil => rw [escaped, List.nil_append, stringBodySize_cons plain, if_pos rfl]; rfl
  | cons c s ih =>
    rw [escaped]
    split
    · rw [List.cons_append, List.cons_append, stringBodySize, if_neg (by decide), ih]
      rfl
    next feed =>
      split
      next mark =>
        rw [List.cons_append, List.cons_append, stringBodySize, if_neg feed, ih]
        rfl
      next other =>
        rw [not_or] at other
        rw [List.cons_append, stringBodySize_cons other.1, if_neg other.2, if_neg feed, ih]
        rfl

theorem unescape_escaped (is : IsQuote quote) (s : List Char) : unescape (escaped quote s) = s := by
  induction s with
  | nil => rfl
  | cons c s ih =>
    rw [escaped]
    split
    next feed => rw [unescape, ih, feed]; rfl
    next =>
      split
      next mark =>
        have itself : escapedChar c = c := by
          rcases is with rfl | rfl <;> rcases mark with rfl | rfl <;> rfl
        rw [unescape, ih, itself]
      next other =>
        rw [not_or] at other
        rw [unescape, ih]
        exact fun _ _ same => absurd same other.1

/-- Each text can be written as a string. -/
theorem isString_literal (is : IsQuote quote) (s : List Char) : IsString (literal quote s) := by
  refine ⟨List.cons_ne_nil _ _, ?_⟩
  rw [literal, List.cons_append, stringSize_cons is, stringBodySize_escaped is]
  simp

theorem stringValue_literal (is : IsQuote quote) (s : List Char) : stringValue (literal quote s) = s := by
  rw [stringValue, literal, List.cons_append, List.drop_succ_cons, List.drop_zero, List.dropLast_concat,
    unescape_escaped is]

/-! ## Tokens in a row -/

/-- At the start of a text stands a token, whenever it is expected as a text of its own, and then a rest. -/
def StandsAt (s : List Char) (t : Terminal × List Char) (rest : List Char) : Prop :=
  ∀ expected, match? expected t.2 = some (t.1, t.2.length) → lexed expected s = some (t.1, t.2, rest)

def Stand : List (Terminal × List Char) → List Char → List Char → Prop
  | [], s, rest => s = rest
  | t :: ts, s, rest => ∃ u, StandsAt s t u ∧ Stand ts u rest

def Stops (u : List Char) : Prop := ∀ c ∈ u.head?, c = ' ' ∨ c = ';'

theorem Stops.ends {u : List Char} (h : Stops u) : Ends u := by
  intro c hc
  rcases h c hc with rfl | rfl <;> decide

/-- A token stands before a text at which it ends. -/
theorem standsAt_append {u : List Char} (stops : Stops u) (t : Terminal) (w : List Char) :
    StandsAt (w ++ u) (t, w) u := by
  have fixed : ∀ f ∈ Terminal.fixed, f.2 = ['/'] ∨ f.2.head? ≠ some '/' ∧ f.2.head?.any isSpace = false := by decide
  intro expected is
  dsimp only at is
  obtain ⟨-, some, -⟩ := size_of_match? is
  obtain ⟨c, v, rfl⟩ := List.exists_cons_of_length_pos some
  have start : layoutSize (c :: v ++ u) = 0 ∧ match? expected (c :: v ++ u) = Option.some (t, (c :: v).length) := by
    by_cases quote : IsQuote c
    · have solid : c ≠ '/' ∧ isSpace c = false := by rcases quote with rfl | rfl <;> decide
      rw [match?_quote quote] at is
      split at is
      next here =>
        have same := stringSize_take here.2 u
        rw [(Prod.mk.inj (Option.some.inj is)).2, List.take_length] at same
        refine ⟨layoutSize_eq_zero solid.1 solid.2 _, ?_⟩
        rw [List.cons_append, match?_quote quote, ← List.cons_append, same,
          if_pos ⟨here.1, Nat.succ_ne_zero _⟩, (Prod.mk.inj (Option.some.inj is)).1]
      next => cases is
    · refine ⟨?_, by rw [match?_append quote stops.ends, is]⟩
      by_cases stop : continues c = true
      · exact layoutSize_continuing stop _
      · rw [Bool.not_eq_true] at stop
        obtain ⟨f, hf, -, stands, -, length⟩ := eq_of_match?_mark stop quote is
        have whole : f.2 = c :: v := (List.isPrefixOf_iff_prefix.mp stands).eq_of_length length.symm
        rcases fixed f hf with solidus | ⟨other, solid⟩
        · obtain ⟨rfl, rfl⟩ := List.cons.inj (whole.symm.trans solidus)
          refine layoutSize_solidus (fun h => ?_) fun h => ?_ <;> rcases stops _ h with h | h <;> cases h
        · rw [whole] at other solid
          exact layoutSize_eq_zero (fun same => other (congrArg Option.some same)) solid _
  rw [lexed_of_match? start.1 start.2, List.take_left, List.drop_left]

theorem standsAt_space {s rest : List Char} {t : Terminal × List Char} (h : StandsAt s t rest) :
    StandsAt (' ' :: s) t rest := by
  intro expected is
  rw [lexed, afterLayout_space (by decide)]
  exact h expected is

def spaced : List (Terminal × List Char) → List Char → List Char
  | [], rest => rest
  | t :: ts, rest => ' ' :: (t.2 ++ spaced ts rest)

theorem spaced_eq (ts : List (Terminal × List Char)) (rest : List Char) : spaced ts rest = spaced ts [] ++ rest := by
  induction ts with
  | nil => rfl
  | cons t ts ih => rw [spaced, ih, spaced, List.cons_append, List.append_assoc]

theorem stops_spaced {rest : List Char} (stops : Stops rest) (ts : List (Terminal × List Char)) :
    Stops (spaced ts rest) := by
  cases ts with
  | nil => exact stops
  | cons t ts =>
    rintro _ ⟨⟩
    exact .inl rfl

/-- Tokens that are written with blanks between them stand in a row. -/
theorem stand_spaced {rest : List Char} (stops : Stops rest) (ts : List (Terminal × List Char)) :
    Stand ts (spaced ts rest) rest := by
  induction ts with
  | nil => rfl
  | cons t ts ih => exact ⟨_, standsAt_space (standsAt_append (stops_spaced stops ts) t.1 t.2), ih⟩

theorem stand_append {a b : List (Terminal × List Char)} {s rest : List Char} :
    Stand (a ++ b) s rest ↔ ∃ u, Stand a s u ∧ Stand b u rest := by
  induction a generalizing s with
  | nil => simp [Stand]
  | cons t ts ih =>
    simp only [List.cons_append, Stand, ih]
    constructor
    · rintro ⟨u, first, m, here, after⟩
      exact ⟨m, ⟨u, first, here⟩, after⟩
    · rintro ⟨m, ⟨u, first, here⟩, after⟩
      exact ⟨u, first, m, here, after⟩

end Lexeme

end Covenant
