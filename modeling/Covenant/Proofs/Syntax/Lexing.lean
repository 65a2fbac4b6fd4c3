import Covenant.Syntax.Token
import Mathlib.Data.List.Find
/-!
Which token stands at the start of a text, and what of the text decides it.

* `match?_append`: a token ends before a character that cannot continue one, whatever comes after it;
* `match?_string`: a string ends at its closing quote;
* `afterLayout`: a text without the blanks and comments at its start;
* `lexed`: the next token of a text and what follows it, as `Token.next` finds them.
-/

namespace Covenant

namespace Lexeme

/-- A character that may belong to a token other than a string without being its first one. -/
def continues (c : Char) : Bool := isNamePart c || ['#', '.', '=', '|', '&'].contains c

/-- A text at which a token before it ends. -/
def Ends (u : List Char) : Prop := ∀ c ∈ u.head?, continues c = false

theorem ends_nil : Ends [] := nofun

theorem ends_cons {c : Char} (h : continues c = false) (u : List Char) : Ends (c :: u) := by
  rintro _ ⟨⟩
  exact h

def IsQuote (c : Char) : Prop := c = '"' ∨ c = '\''

variable {u : List Char}

theorem Ends.head {p : Char → Bool} (within : ∀ c, p c = true → continues c = true) {c : Char}
    (ends : Ends (c :: u)) : p c = false := by
  cases hp : p c with
  | false => rfl
  | true => exact absurd (within c hp) (by rw [ends c rfl]; decide)

theorem Ends.ne {a c : Char} (ends : Ends (c :: u)) (h : continues a = true) : c ≠ a := by
  rintro rfl
  exact absurd h (by rw [ends c rfl]; decide)

theorem takeWhile_append {p : Char → Bool} (within : ∀ c, p c = true → continues c = true) (ends : Ends u)
    (v : List Char) : (v ++ u).takeWhile p = v.takeWhile p := by
  have none : u.takeWhile p = [] := by
    cases u with
    | nil => rfl
    | cons c rest => exact List.takeWhile_cons_of_neg (by rw [ends.head within]; decide)
  rw [List.takeWhile_append, none, List.append_nil]
  split
  next all => exact (List.IsPrefix.eq_of_length (List.takeWhile_prefix p) all).symm
  next => rfl

theorem continues_of_isNamePart (c : Char) (h : isNamePart c = true) : continues c = true := by
  rw [continues, h, Bool.true_or]

theorem continues_of_isNameStart (c : Char) (h : isNameStart c = true) : continues c = true :=
  continues_of_isNamePart c (by rw [isNamePart, h, Bool.true_or])

theorem continues_of_isDigit (c : Char) (h : isDigit c = true) : continues c = true :=
  continues_of_isNamePart c (by rw [isNamePart, h, Bool.or_true])

theorem continues_of_hexValue? (c : Char) (h : (Text.hexValue? c).isSome = true) : continues c = true := by
  refine continues_of_isNamePart c ?_
  have upper : 'f' ≤ 'z' ∧ 'F' ≤ 'Z' := by decide
  simp only [isNamePart, isNameStart, isDigit, Bool.or_eq_true, Bool.and_eq_true, decide_eq_true_eq]
  unfold Text.hexValue? at h
  split at h
  next digit => exact .inr digit
  next =>
    split at h
    next small => exact .inl (.inl (.inl ⟨small.1, Char.le_trans small.2 upper.1⟩))
    next =>
      split at h
      next large => exact .inl (.inl (.inr ⟨large.1, Char.le_trans large.2 upper.2⟩))
      next => cases h

/-! ## Tokens other than strings -/

theorem nameSize_append (ends : Ends u) (v : List Char) : nameSize (v ++ u) = nameSize v := by
  cases v with
  | cons c rest => rw [List.cons_append, nameSize, nameSize, takeWhile_append continues_of_isNamePart ends]
  | nil =>
    cases u with
    | nil => rfl
    | cons c rest =>
      change nameSize (c :: rest) = 0
      rw [nameSize, if_neg (by rw [ends.head continues_of_isNameStart]; decide)]

theorem nameSize_le (s : List Char) : nameSize s ≤ s.length := by
  cases s with
  | nil => exact Nat.le_refl 0
  | cons c rest =>
    rw [nameSize]
    split
    · rw [List.length_cons, Nat.add_comm]
      exact Nat.succ_le_succ (List.takeWhile_prefix _).length_le
    · exact Nat.zero_le _

theorem keyLiteralSize_append (ends : Ends u) (v : List Char) :
    keyLiteralSize (v ++ u) = keyLiteralSize v := by
  simp only [keyLiteralSize, nameSize_append ends, List.drop_append_of_le_length (nameSize_le v)]
  cases v.drop (nameSize v) with
  | nil =>
    cases u with
    | nil => rfl
    | cons c rest => simp [ends.ne (a := '#') (by decide)]
  | cons c rest =>
    by_cases mark : c = '#'
    · subst mark
      simp only [List.cons_append, takeWhile_append continues_of_hexValue? ends]
    · simp [mark]

theorem numberSize_append (ends : Ends u) (v : List Char) : numberSize (v ++ u) = numberSize v := by
  have whole : (v.takeWhile isDigit).length ≤ v.length := (List.takeWhile_prefix _).length_le
  simp only [numberSize, takeWhile_append continues_of_isDigit ends, List.drop_append_of_le_length whole]
  cases v.drop (v.takeWhile isDigit).length with
  | nil =>
    cases u with
    | nil => rfl
    | cons c rest => simp [ends.ne (a := '.') (by decide)]
  | cons c rest =>
    by_cases point : c = '.'
    · subst point
      simp only [List.cons_append, takeWhile_append continues_of_isDigit ends]
    · simp [point]

/-- Where nothing stands that continues a token, there is no name, number or literal key. -/
theorem sizes_of_stops {c : Char} (stops : continues c = false) (v : List Char) :
    keyLiteralSize (c :: v) = 0 ∧ nameSize (c :: v) = 0 ∧ numberSize (c :: v) = 0 := by
  have ends := ends_cons stops v
  have name : nameSize (c :: v) = 0 := by
    rw [nameSize, if_neg (by rw [ends.head continues_of_isNameStart]; decide)]
  refine ⟨?_, name, ?_⟩
  · simp only [keyLiteralSize, name, List.drop_zero]
    split
    · exact if_pos (.inl trivial)
    · rfl
  · rw [numberSize, List.takeWhile_cons_of_neg (by rw [ends.head continues_of_isDigit]; decide)]
    rfl

theorem isPrefixOf_append (ends : Ends u) {w : List Char} (all : ∀ c ∈ w, continues c = true) (v : List Char) :
    w.isPrefixOf (v ++ u) = w.isPrefixOf v := by
  induction w generalizing v with
  | nil => simp
  | cons a w ih =>
    cases v with
    | cons c v =>
      rw [List.cons_append, List.isPrefixOf, List.isPrefixOf, ih fun c hc => all c (List.mem_cons_of_mem _ hc)]
    | nil =>
      cases u with
      | nil => rfl
      | cons c rest =>
        have other : (a == c) = false := beq_eq_false_iff_ne.mpr (ends.ne (all a List.mem_cons_self)).symm
        change (a == c && w.isPrefixOf rest) = false
        rw [other, Bool.false_and]

theorem fixed_continues : ∀ f ∈ Terminal.fixed, f.2 ≠ [] ∧ ∀ c ∈ f.2.tail, continues c = true := by
  have all : ∀ f ∈ Terminal.fixed, f.2 ≠ [] ∧ f.2.tail.all continues = true := by decide
  exact fun f hf => ⟨(all f hf).1, List.all_eq_true.mp (all f hf).2⟩

theorem stringSize_of_plain {c : Char} (plain : ¬ IsQuote c) (rest : List Char) : stringSize (c :: rest) = 0 := by
  unfold stringSize
  split
  next h => exact absurd (.inl (List.cons.inj h).1) plain
  next h => exact absurd (.inr (List.cons.inj h).1) plain
  next => rfl

/-- A token other than a string ends before a character that cannot continue one. -/
theorem match?_append {c : Char} (plain : ¬ IsQuote c) (ends : Ends u) (expected : List Terminal)
    (v : List Char) : match? expected (c :: v ++ u) = match? expected (c :: v) := by
  have fixed : ∀ f ∈ Terminal.fixed, f.2.isPrefixOf (c :: v ++ u) = f.2.isPrefixOf (c :: v) := by
    intro f hf
    obtain ⟨some, all⟩ := fixed_continues f hf
    obtain ⟨a, w, hw⟩ := List.exists_cons_of_ne_nil some
    rw [hw] at all ⊢
    rw [List.cons_append, List.isPrefixOf, List.isPrefixOf]
    exact congrArg _ (isPrefixOf_append ends all v)
  have found : Terminal.fixed.find? (fun f => expected.contains f.1 && f.2.isPrefixOf (c :: v ++ u)) =
      Terminal.fixed.find? fun f => expected.contains f.1 && f.2.isPrefixOf (c :: v) :=
    List.find?_congr fun f hf => by rw [fixed f hf]
  rw [match?, match?, found, keyLiteralSize_append ends, nameSize_append ends, numberSize_append ends,
    List.take_append_of_le_length (nameSize_le _), List.cons_append, stringSize_of_plain plain,
    stringSize_of_plain plain]

theorem keyLiteralSize_le (s : List Char) : keyLiteralSize s ≤ s.length := by
  unfold keyLiteralSize
  dsimp only
  split
  next digits h =>
    have within : (digits.takeWhile fun c => (Text.hexValue? c).isSome).length ≤ digits.length :=
      (List.takeWhile_prefix _).length_le
    have length := congrArg List.length h
    rw [List.length_drop, List.length_cons] at length
    split <;> omega
  next => exact Nat.zero_le _

theorem numberSize_le (s : List Char) : numberSize s ≤ s.length := by
  have whole : (s.takeWhile isDigit).length ≤ s.length := (List.takeWhile_prefix _).length_le
  unfold numberSize
  dsimp only
  split
  · exact Nat.zero_le _
  · split
    next digits h =>
      have within : (digits.takeWhile isDigit).length ≤ digits.length := (List.takeWhile_prefix _).length_le
      have length := congrArg List.length h
      rw [List.length_drop, List.length_cons] at length
      split <;> omega
    next => exact whole

/-- Where neither stands what continues a token nor a quote, there are tokens of one text only. -/
theorem match?_mark {c : Char} (stops : continues c = false) (plain : ¬ IsQuote c) (expected : List Terminal)
    (v : List Char) : match? expected (c :: v) =
      (Terminal.fixed.find? fun f => expected.contains f.1 && f.2.isPrefixOf (c :: v)).map fun f =>
        (f.1, f.2.length) := by
  obtain ⟨key, name, number⟩ := sizes_of_stops stops v
  rw [match?, key, name, number, stringSize_of_plain plain]
  simp only [bne_self_eq_false, Bool.and_false, Bool.false_eq_true, if_false]

/-- A token at a mark is one of those with one text only. -/
theorem eq_of_match?_mark {c : Char} {expected : List Terminal} {v : List Char} {t : Terminal} {n : Nat}
    (stops : continues c = false) (plain : ¬ IsQuote c) (h : match? expected (c :: v) = some (t, n)) :
    ∃ f ∈ Terminal.fixed, f.1 ∈ expected ∧ f.2.isPrefixOf (c :: v) = true ∧ t = f.1 ∧ n = f.2.length := by
  rw [match?_mark stops plain] at h
  obtain ⟨f, hf, he⟩ := Option.map_eq_some_iff.mp h
  have stands := List.find?_some hf
  rw [Bool.and_eq_true, List.contains_iff_mem] at stands
  cases he
  exact ⟨f, List.mem_of_find?_eq_some hf, stands.1, stands.2, rfl, rfl⟩

/-! ## Strings -/

theorem stringBodySize_cons {c : Char} (plain : c ≠ '\\') (quote : Char) (rest : List Char) :
    stringBodySize quote (c :: rest) = if c = quote then some 1 else if c = '\n' then none
      else (stringBodySize quote rest).map (· + 1) := by
  rw [stringBodySize]
  · simp only [plain, or_false]
  · exact fun _ _ same => absurd same plain

/-- A string ends at its closing quote. -/
theorem stringBodySize_take {quote : Char} (plain : quote ≠ '\\') {s : List Char} {n : Nat}
    (h : stringBodySize quote s = some n) (u : List Char) : stringBodySize quote (s.take n ++ u) = some n := by
  fun_induction stringBodySize quote s generalizing n with
  | case1 => cases h
  | case2 => cases h
  | case3 c rest feed ih =>
    obtain ⟨m, hm, rfl⟩ := Option.map_eq_some_iff.mp h
    rw [List.take_succ_cons, List.take_succ_cons, List.cons_append, List.cons_append, stringBodySize, if_neg feed,
      ih hm]
    rfl
  | case4 rest =>
    cases h
    rw [List.take_succ_cons, List.cons_append, stringBodySize_cons plain, if_pos rfl]
  | case5 => cases h
  | case6 c rest _ other ordinary ih =>
    obtain ⟨m, hm, rfl⟩ := Option.map_eq_some_iff.mp h
    rw [not_or] at ordinary
    rw [List.take_succ_cons, List.cons_append, stringBodySize_cons ordinary.2, if_neg other, if_neg ordinary.1,
      ih hm]
    rfl

theorem stringBodySize_le {quote : Char} {s : List Char} {n : Nat} (h : stringBodySize quote s = some n) :
    n ≤ s.length := by
  fun_induction stringBodySize quote s generalizing n with
  | case1 => cases h
  | case2 => cases h
  | case3 c rest feed ih =>
    obtain ⟨m, hm, rfl⟩ := Option.map_eq_some_iff.mp h
    exact Nat.add_le_add_right (ih hm) 2
  | case4 rest =>
    cases h
    exact Nat.succ_le_succ (Nat.zero_le _)
  | case5 => cases h
  | case6 c rest _ other ordinary ih =>
    obtain ⟨m, hm, rfl⟩ := Option.map_eq_some_iff.mp h
    exact Nat.succ_le_succ (ih hm)

theorem stringSize_cons {quote : Char} (h : IsQuote quote) (rest : List Char) :
    stringSize (quote :: rest) = ((stringBodySize quote rest).map (· + 1)).getD 0 := by
  rcases h with rfl | rfl <;> rfl

/-- What begins with a string begins with its opening quote. -/
theorem exists_quote {s : List Char} (h : stringSize s ≠ 0) : ∃ quote rest n, IsQuote quote ∧
    s = quote :: rest ∧ stringBodySize quote rest = some n ∧ stringSize s = n + 1 := by
  cases s with
  | nil => exact absurd rfl h
  | cons c rest =>
    by_cases quote : IsQuote c
    · rw [stringSize_cons quote] at h ⊢
      cases body : stringBodySize c rest with
      | none => exact absurd (by rw [body]; rfl) h
      | some n => exact ⟨c, rest, n, quote, rfl, body, rfl⟩
    · exact absurd (stringSize_of_plain quote rest) h

/-- A string ends at its closing quote, whatever comes after it. -/
theorem stringSize_take {s : List Char} (h : stringSize s ≠ 0) (u : List Char) :
    stringSize (s.take (stringSize s) ++ u) = stringSize s := by
  obtain ⟨quote, rest, n, is, rfl, body, size⟩ := exists_quote h
  have plain : quote ≠ '\\' := by
    rintro rfl
    rcases is with h | h <;> cases h
  rw [size, List.take_succ_cons, List.cons_append, stringSize_cons is, stringBodySize_take plain body u]
  rfl

theorem IsQuote.stops {c : Char} (h : IsQuote c) : continues c = false := by
  rcases h with rfl | rfl <;> decide

/-- Where a quote stands, there is a string or no token. -/
theorem match?_quote {quote : Char} (is : IsQuote quote) (expected : List Terminal) (rest : List Char) :
    match? expected (quote :: rest) = if .string ∈ expected ∧ stringSize (quote :: rest) ≠ 0 then
      some (.string, stringSize (quote :: rest)) else none := by
  have fixed : ∀ f ∈ Terminal.fixed, f.2 ≠ [] ∧ f.2.head? ≠ some '"' ∧ f.2.head? ≠ some '\'' := by decide
  obtain ⟨key, name, number⟩ := sizes_of_stops is.stops rest
  have none : Terminal.fixed.find? (fun f => expected.contains f.1 && f.2.isPrefixOf (quote :: rest)) = none := by
    refine List.find?_eq_none.mpr fun f hf found => ?_
    obtain ⟨some, other⟩ := fixed f hf
    obtain ⟨a, w, hw⟩ := List.exists_cons_of_ne_nil some
    rw [hw, Bool.and_eq_true, List.isPrefixOf, Bool.and_eq_true, beq_iff_eq] at found
    have head : f.2.head? = Option.some quote := by rw [hw, found.2.1]; rfl
    rcases is with rfl | rfl
    · exact other.1 head
    · exact other.2 head
  rw [match?, key, name, number, none]
  simp only [bne_self_eq_false, Bool.and_false, Bool.false_eq_true, if_false, Bool.and_eq_true, bne_iff_ne,
    List.contains_iff_mem, Option.map_none]

theorem stringSize_le (s : List Char) : stringSize s ≤ s.length := by
  by_cases h : stringSize s = 0
  · exact h ▸ Nat.zero_le _
  · obtain ⟨quote, rest, n, -, rfl, body, size⟩ := exists_quote h
    exact size ▸ Nat.succ_le_succ (stringBodySize_le body)

/-- A token is not empty, and stands in the text. -/
theorem size_of_match? {expected : List Terminal} {s : List Char} {t : Terminal} {n : Nat}
    (h : match? expected s = some (t, n)) : t ≠ .endOfText ∧ 0 < n ∧ n ≤ s.length := by
  have fixed : ∀ f ∈ Terminal.fixed, f.1 ≠ .endOfText ∧ 0 < f.2.length := by decide
  have sized {t' : Terminal} {size : List Char → Nat} (le : size s ≤ s.length)
      (found : (expected.contains t' && size s != 0) = true) : 0 < size s ∧ size s ≤ s.length := by
    rw [Bool.and_eq_true, bne_iff_ne] at found
    exact ⟨Nat.pos_of_ne_zero found.2, le⟩
  unfold match? at h
  split at h
  next found =>
    cases h
    exact ⟨nofun, sized (keyLiteralSize_le s) found⟩
  · split at h
    next found =>
      have size := sized (nameSize_le s) found
      dsimp only at h
      split at h
      next f hf =>
        cases h
        exact ⟨(fixed f (List.mem_of_find?_eq_some hf)).1, size⟩
      next =>
        cases h
        exact ⟨nofun, size⟩
    · split at h
      next found =>
        cases h
        exact ⟨nofun, sized (numberSize_le s) found⟩
      · split at h
        next found =>
          cases h
          exact ⟨nofun, sized (stringSize_le s) found⟩
        · obtain ⟨f, hf, he⟩ := Option.map_eq_some_iff.mp h
          cases he
          obtain ⟨other, size⟩ := fixed f (List.mem_of_find?_eq_some hf)
          have stands := List.find?_some hf
          rw [Bool.and_eq_true, List.isPrefixOf_iff_prefix] at stands
          exact ⟨other, size, stands.2.length_le⟩

/-- All characters of a token but the first one continue it, except in a string. -/
theorem size_le_of_match? {expected : List Terminal} {c : Char} {v : List Char} {t : Terminal} {n : Nat}
    (plain : ¬ IsQuote c) (h : match? expected (c :: v) = some (t, n)) :
    n ≤ (v.takeWhile continues).length + 1 := by
  have ends : Ends (v.dropWhile continues) := by
    intro d hd
    have stops := List.head?_dropWhile_not continues v
    rw [Option.mem_def.mp hd] at stops
    exact stops
  rw [← List.takeWhile_append_dropWhile (p := continues) (l := v), ← List.cons_append,
    match?_append plain ends] at h
  exact (size_of_match? h).2.2

/-! ## Layout -/

theorem layoutSize_of_ne {c : Char} (h : c ≠ '/') (rest : List Char) :
    layoutSize (c :: rest) = ((c :: rest).takeWhile isSpace).length := by
  unfold layoutSize
  split
  next same => exact absurd (List.cons.inj same).1 h
  next same => exact absurd (List.cons.inj same).1 h
  next => rfl

theorem isSpace_continues {c : Char} (h : isSpace c = true) : continues c = false := by
  simp only [isSpace, Bool.or_eq_true, beq_iff_eq] at h
  rcases h with (((rfl | rfl) | rfl) | rfl) | rfl <;> decide

theorem isSpace_of_layoutSize {c : Char} {s : List Char} (h : layoutSize (c :: s) = 0) : isSpace c = false := by
  cases is : isSpace c with
  | false => rfl
  | true =>
    rw [layoutSize_of_ne (by rintro rfl; cases is), List.takeWhile_cons_of_pos is] at h
    cases h

theorem layoutSize_eq_zero {c : Char} (other : c ≠ '/') (solid : isSpace c = false) (s : List Char) :
    layoutSize (c :: s) = 0 := by
  rw [layoutSize_of_ne other, List.takeWhile_cons_of_neg (by rw [solid]; decide), List.length_nil]

theorem layoutSize_solidus {s : List Char} (line : s.head? ≠ some '/') (block : s.head? ≠ some '*') :
    layoutSize ('/' :: s) = 0 := by
  unfold layoutSize
  split
  next h =>
    cases h
    exact absurd rfl line
  next h =>
    cases h
    exact absurd rfl block
  next => rfl

theorem layoutSize_continuing {c : Char} (h : continues c = true) (s : List Char) : layoutSize (c :: s) = 0 := by
  refine layoutSize_eq_zero ?_ ?_ s
  · rintro rfl
    cases h
  · cases is : isSpace c with
    | false => rfl
    | true => rw [isSpace_continues is] at h; cases h

/-- The text without the blanks and comments at its start. -/
def afterLayout (s : List Char) : List Char :=
  if layoutSize s = 0 then s else afterLayout (s.drop (layoutSize s))
termination_by s.length
decreasing_by
  next some =>
    cases s with
    | nil => exact absurd rfl some
    | cons c rest => exact (List.length_drop ▸ Nat.sub_lt (Nat.succ_pos _) (Nat.pos_of_ne_zero some))

theorem afterLayout_of_none {s : List Char} (h : layoutSize s = 0) : afterLayout s = s := by
  rw [afterLayout, if_pos h]

theorem afterLayout_drop {s : List Char} : afterLayout (s.drop (layoutSize s)) = afterLayout s := by
  by_cases h : layoutSize s = 0
  · rw [h, List.drop_zero]
  · rw [afterLayout.eq_1 s, if_neg h]

theorem afterLayout_space {c : Char} (h : isSpace c = true) (s : List Char) :
    afterLayout (c :: s) = afterLayout s := by
  have size : ∀ {c : Char}, isSpace c = true → ∀ rest,
      layoutSize (c :: rest) = (rest.takeWhile isSpace).length + 1 := by
    intro c h rest
    rw [layoutSize_of_ne (by rintro rfl; cases h), List.takeWhile_cons_of_pos h, List.length_cons]
  rw [← afterLayout_drop, size h, List.drop_succ_cons]
  cases s with
  | nil => rfl
  | cons d rest =>
    by_cases hd : isSpace d = true
    · rw [List.takeWhile_cons_of_pos hd, List.length_cons, ← size hd, afterLayout_drop]
    · rw [List.takeWhile_cons_of_neg hd, List.length_nil, List.drop_zero]

theorem afterLayout_line {body : List Char} (h : '\n' ∉ body) (s : List Char) :
    afterLayout ('/' :: '/' :: body ++ '\n' :: s) = afterLayout s := by
  have taken : (body ++ '\n' :: s).takeWhile (· != '\n') = body := by
    have all : ∀ c ∈ body, (c != '\n') = true := fun c hc => bne_iff_ne.mpr fun same => h (same ▸ hc)
    rw [List.takeWhile_append_of_pos all, List.takeWhile_cons_of_neg (by decide), List.append_nil]
  have size : layoutSize ('/' :: '/' :: body ++ '\n' :: s) = body.length + 2 := by
    rw [List.cons_append, List.cons_append, layoutSize, taken, Nat.add_comm]
  rw [← afterLayout_drop, size, List.cons_append, List.cons_append, List.drop_succ_cons, List.drop_succ_cons,
    List.drop_left, afterLayout_space (by decide)]

theorem commentBodySize_append {body : List Char} (h : ¬ ['*', '/'] <:+: body) (s : List Char) :
    commentBodySize (body ++ '*' :: '/' :: s) = some (body.length + 2) := by
  induction body with
  | nil => rfl
  | cons c body ih =>
    have inner := ih fun inside => h (List.infix_cons inside)
    rw [List.cons_append, commentBodySize, inner]
    · rfl
    · rintro rest rfl same
      cases body with
      | nil => cases same
      | cons d body =>
        obtain ⟨rfl, -⟩ := List.cons.inj same
        exact h ⟨[], body, rfl⟩

theorem afterLayout_block {body : List Char} (h : ¬ ['*', '/'] <:+: body) (s : List Char) :
    afterLayout ('/' :: '*' :: body ++ '*' :: '/' :: s) = afterLayout s := by
  have size : layoutSize ('/' :: '*' :: body ++ '*' :: '/' :: s) = body.length + 2 + 2 := by
    rw [List.cons_append, List.cons_append, layoutSize, commentBodySize_append h]
    rfl
  rw [← afterLayout_drop, size, List.cons_append, List.cons_append, List.drop_succ_cons, List.drop_succ_cons,
    ← List.drop_drop, List.drop_left]
  rfl

/-! ## The next token -/

/-- The next token among the expected ones, its text, and what follows it. -/
def lexed (expected : List Terminal) (s : List Char) : Option (Terminal × List Char × List Char) :=
  match afterLayout s with
  | [] => some (.endOfText, [], [])
  | c :: rest => (match? expected (c :: rest)).map fun (t, n) => (t, (c :: rest).take n, (c :: rest).drop n)

theorem length_afterLayout_le (s : List Char) : (afterLayout s).length ≤ s.length := by
  fun_induction afterLayout s with
  | case1 => exact Nat.le_refl _
  | case2 s _ ih => exact ih.trans (List.length_drop ▸ Nat.sub_le _ _)

/-- A token and what follows it are parts of the text, and only the end of the text is an empty one. -/
theorem length_of_lexed {expected : List Terminal} {s text rest : List Char} {t : Terminal}
    (h : lexed expected s = some (t, text, rest)) :
    text.length + rest.length ≤ s.length ∧ (t ≠ .endOfText → text ≠ []) := by
  have le := length_afterLayout_le s
  rw [lexed] at h
  split at h
  · cases h
    exact ⟨Nat.zero_le _, fun other => absurd rfl other⟩
  next c more after =>
    obtain ⟨⟨t', n⟩, found, same⟩ := Option.map_eq_some_iff.mp h
    cases same
    obtain ⟨-, some, within⟩ := size_of_match? found
    rw [after] at le
    refine ⟨?_, fun _ none => ?_⟩
    · rw [← List.length_append, List.take_append_drop]
      exact le
    · rw [List.take_eq_nil_iff] at none
      rcases none with rfl | none
      · exact absurd some (Nat.lt_irrefl 0)
      · cases none

theorem lexed_of_match? {expected : List Terminal} {s : List Char} {t : Terminal} {n : Nat}
    (start : layoutSize s = 0) (is : match? expected s = some (t, n)) :
    lexed expected s = some (t, s.take n, s.drop n) := by
  rw [lexed, afterLayout_of_none start]
  cases s with
  | nil => exact absurd (size_of_match? is).2 (by rintro ⟨some, none⟩; exact absurd some (Nat.not_lt.mpr none))
  | cons c rest =>
    simp only [is, Option.map_some]

end Lexeme

namespace SourcePlace

theorem rest_skip (place : SourcePlace) (n : Nat) : (place.skip n).rest = place.rest.drop n := by
  induction n generalizing place with
  | zero => rfl
  | succ n ih =>
    obtain ⟨_ | ⟨c, rest⟩, line, column⟩ := place
    · rfl
    · simp only [skip, List.drop_succ_cons]
      split <;> exact ih _

theorem rest_skipLayout {place : SourcePlace} {n : Nat} (h : place.rest.length ≤ n) :
    (place.skipLayout n).rest = Lexeme.afterLayout place.rest := by
  induction n generalizing place with
  | zero =>
    rw [List.length_eq_zero_iff.mp (Nat.le_zero.mp h), skipLayout, Lexeme.afterLayout_of_none rfl]
    exact List.length_eq_zero_iff.mp (Nat.le_zero.mp h)
  | succ n ih =>
    rw [skipLayout]
    split
    next none => exact (Lexeme.afterLayout_of_none none).symm
    next some =>
      rw [ih, rest_skip, Lexeme.afterLayout_drop]
      rw [rest_skip, List.length_drop]
      omega

end SourcePlace

namespace Token

theorem lexed_of_next {expected : List Terminal} {before t : Token} {place place' : SourcePlace}
    (h : next expected before place = .ok (t, place')) :
    Lexeme.lexed expected place.rest = some (t.terminal, t.text, place'.rest) := by
  rw [Lexeme.lexed, ← SourcePlace.rest_skipLayout (Nat.le_refl _)]
  unfold next at h
  dsimp only at h
  split at h
  next ended =>
    cases h
    rw [ended]
  next c rest found =>
    split at h
    next terminal size is =>
      cases h
      rw [found] at is
      rw [found]
      simp only [is, Option.map_some, SourcePlace.rest_skip, found]
    next => split at h <;> cases h

theorem exists_next {expected : List Terminal} (place : SourcePlace) {terminal : Terminal} {text rest : List Char}
    (h : Lexeme.lexed expected place.rest = some (terminal, text, rest)) (before : Token) :
    ∃ t place', next expected before place = .ok (t, place') ∧ t.terminal = terminal ∧ t.text = text ∧
      place'.rest = rest := by
  rw [Lexeme.lexed, ← SourcePlace.rest_skipLayout (Nat.le_refl _)] at h
  unfold next
  dsimp only
  cases found : (place.skipLayout place.rest.length).rest with
  | nil =>
    rw [found] at h
    cases h
    exact ⟨_, _, rfl, rfl, rfl, found⟩
  | cons c rest' =>
    rw [found] at h
    obtain ⟨⟨t, n⟩, is, h⟩ := Option.map_eq_some_iff.mp h
    cases h
    simp only [is]
    exact ⟨_, _, rfl, rfl, rfl, by rw [SourcePlace.rest_skip, found]⟩

end Token

end Covenant
