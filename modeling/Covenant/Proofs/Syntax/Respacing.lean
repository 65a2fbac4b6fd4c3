import Covenant.Proofs.Syntax.Lexing
/-!
Texts with the same tokens and other layout between them.

* `Respaced`: blanks and comments between tokens become others;
* `Aligned`: the same, character by character, as it is known anywhere in a text;
* `Aligned.lexed`: the next token of aligned texts is the same, and what follows it is aligned. Only where a
  comment is opened that is never closed the texts may part: what closes it may have been put in.
-/

namespace Covenant

namespace Lexeme

/-- A run of blanks and complete comments. -/
inductive Filling : List Char → Prop
  | nil : Filling []
  | space {c : Char} {s : List Char} (is : isSpace c = true) (rest : Filling s) : Filling (c :: s)
  | line {body s : List Char} (inside : '\n' ∉ body) (rest : Filling s) :
      Filling ('/' :: '/' :: body ++ '\n' :: s)
  | block {body s : List Char} (inside : ¬ ['*', '/'] <:+: body) (rest : Filling s) :
      Filling ('/' :: '*' :: body ++ '*' :: '/' :: s)

/-- What may be put between two tokens: it begins with a blank. -/
structure Separator (s : List Char) : Prop where
  filling : Filling s
  begins : ∃ c ∈ s.head?, isSpace c = true

/-- A text in which runs of blanks and comments between tokens have become others. -/
inductive Respaced : List Char → List Char → Prop
  | rest (s : List Char) : Respaced s s
  | token {expected : List Terminal} {t : Terminal} {n : Nat} {s s' : List Char} (start : layoutSize s = 0)
      (is : match? expected s = some (t, n)) (more : Respaced (s.drop n) s') : Respaced s (s.take n ++ s')
  | gap {old new s s' : List Char} (was : Filling old) (some : old ≠ []) (start : layoutSize s = 0)
      (becomes : new = old ∨ Separator new) (more : Respaced s s') : Respaced (old ++ s) (new ++ s')

/-- The second text may stand for the first one after any character of a token. -/
inductive Aligned : List Char → List Char → Prop
  | rest (s : List Char) : Aligned s s
  | char {c : Char} {s s' : List Char} (plain : ¬ IsQuote c) (start : layoutSize (c :: s) = 0)
      (more : Aligned s s') : Aligned (c :: s) (c :: s')
  | string {s s' : List Char} (is : stringSize s ≠ 0) (more : Aligned (s.drop (stringSize s)) s') :
      Aligned s (s.take (stringSize s) ++ s')
  | gap {o n : Char} {old new s s' : List Char} (was : Filling (o :: old)) (is : Filling (n :: new))
      (begins : isSpace n = true ∨ n = o) (start : layoutSize s = 0) (more : Aligned s s') :
      Aligned (o :: old ++ s) (n :: new ++ s')

/-! ## Layout -/

theorem Filling.head {c : Char} {s : List Char} (h : Filling (c :: s)) : isSpace c = true ∨ c = '/' := by
  cases h with
  | space is => exact .inl is
  | line | block => exact .inr rfl

theorem afterLayout_filling {g : List Char} (h : Filling g) (s : List Char) :
    afterLayout (g ++ s) = afterLayout s := by
  induction h with
  | nil => rfl
  | space is _ ih => rw [List.cons_append, afterLayout_space is, ih]
  | @line body rest inside _ ih =>
    rw [List.append_assoc, List.cons_append]
    exact (afterLayout_line inside (rest ++ s)).trans ih
  | @block body rest inside _ ih =>
    rw [List.append_assoc, List.cons_append]
    exact (afterLayout_block inside (rest ++ s)).trans ih

theorem Filling.layoutSize {c : Char} {g : List Char} (h : Filling (c :: g)) (s : List Char) :
    layoutSize (c :: g ++ s) ≠ 0 := by
  generalize same : c :: g = g' at h
  cases h with
  | nil => cases same
  | space is =>
    rw [List.cons_append, layoutSize_of_ne (by rintro rfl; cases is), List.takeWhile_cons_of_pos is]
    exact Nat.succ_ne_zero _
  | line =>
    rw [List.append_assoc, List.cons_append, List.cons_append, Lexeme.layoutSize]
    omega
  | block inside =>
    rw [List.append_assoc, List.cons_append, List.cons_append, Lexeme.layoutSize]
    exact (congrArg (fun size => ((size.map (· + 2)).getD 0 ≠ 0)) (commentBodySize_append inside _)).mpr
      (Nat.succ_ne_zero _)

theorem Filling.ends {c : Char} {g : List Char} (h : Filling (c :: g)) (s : List Char) : Ends (c :: g ++ s) := by
  refine ends_cons ?_ _
  rcases h.head with is | rfl
  · exact isSpace_continues is
  · decide

theorem ends_string {s : List Char} (h : stringSize s ≠ 0) : Ends s := by
  obtain ⟨quote, rest, -, is, rfl, -⟩ := exists_quote h
  exact ends_cons is.stops rest

theorem layoutSize_string {s : List Char} (h : stringSize s ≠ 0) (u : List Char) :
    layoutSize (s.take (stringSize s) ++ u) = 0 := by
  obtain ⟨quote, rest, n, is, rfl, -, size⟩ := exists_quote h
  rw [size, List.take_succ_cons, List.cons_append]
  rcases is with rfl | rfl <;> exact layoutSize_eq_zero (by decide) (by decide) _

/-! ## Respaced texts are aligned -/

/-- A token stands in aligned texts alike. -/
theorem Aligned.token {expected : List Terminal} {t : Terminal} {n : Nat} {s s' : List Char}
    (start : layoutSize s = 0) (is : match? expected s = some (t, n)) (more : Aligned (s.drop n) s') :
    Aligned s (s.take n ++ s') := by
  obtain ⟨-, some, le⟩ := size_of_match? is
  cases s with
  | nil => exact absurd (Nat.lt_of_lt_of_le some le) (Nat.lt_irrefl 0)
  | cons c v =>
    by_cases quote : IsQuote c
    · rw [match?_quote quote] at is
      split at is
      next found =>
        cases is
        exact .string found.2 more
      next => cases is
    · obtain ⟨n, rfl⟩ := Nat.exists_eq_succ_of_ne_zero some.ne'
      refine .char quote start ?_
      have inner := Nat.le_of_succ_le_succ (size_le_of_match? quote is)
      rw [List.drop_succ_cons] at more
      clear is some le start
      induction n generalizing v with
      | zero => exact more
      | succ n ih =>
        cases v with
        | nil => cases inner
        | cons d v =>
          have next : continues d = true := by
            by_contra stops
            rw [List.takeWhile_cons_of_neg stops] at inner
            cases inner
          rw [List.takeWhile_cons_of_pos next] at inner
          refine .char ?_ (layoutSize_continuing next _) (ih v more (Nat.le_of_succ_le_succ inner))
          rintro (rfl | rfl) <;> cases next

theorem Respaced.aligned {s s' : List Char} (h : Respaced s s') : Aligned s s' := by
  induction h with
  | rest s => exact .rest s
  | token start is _ ih => exact .token start is ih
  | @gap old new s s' was some start becomes _ ih =>
    obtain ⟨o, old, rfl⟩ := List.exists_cons_of_ne_nil some
    rcases becomes with rfl | separator
    · exact .gap was was (.inr rfl) start ih
    · obtain ⟨n, first, is⟩ := separator.begins
      cases new with
      | nil => cases first
      | cons n' new =>
        cases first
        exact .gap was separator.filling (.inl is) start ih

/-! ## Tokens of aligned texts -/

/-- A solidus before an asterisk is an operator. -/
theorem match?_solidus {expected : List Terminal} {r : List Char} {t : Terminal} {n : Nat}
    (h : match? expected ('/' :: '*' :: r) = some (t, n)) : t = .divide ∧ n = 1 := by
  have fixed : ∀ f ∈ Terminal.fixed, f.2.isPrefixOf ['/'] = true → f.1 = .divide ∧ f.2.length = 1 := by decide
  have ends : Ends ('*' :: r) := ends_cons (by decide) r
  have plain : ¬ IsQuote '/' := by rintro (h | h) <;> cases h
  rw [show '/' :: '*' :: r = ['/'] ++ '*' :: r from rfl, match?_append plain ends] at h
  obtain ⟨f, hf, -, stands, rfl, rfl⟩ := eq_of_match?_mark (by decide) plain h
  exact fixed f hf stands

/-- At an asterisk stands nothing but the operator. -/
theorem times_of_lexed {expected : List Terminal} {s text rest : List Char} {t : Terminal}
    (h : lexed expected ('*' :: s) = some (t, text, rest)) : .times ∈ expected := by
  have fixed : ∀ f ∈ Terminal.fixed, f.2 ≠ [] ∧ (f.2.head? = some '*' → f.1 = .times) := by decide
  rw [lexed, afterLayout_of_none (layoutSize_eq_zero (by decide) (by decide) s)] at h
  obtain ⟨⟨t', n⟩, found, -⟩ := Option.map_eq_some_iff.mp h
  obtain ⟨f, hf, here, stands, -⟩ := eq_of_match?_mark (by decide) (by rintro (h | h) <;> cases h) found
  obtain ⟨some, only⟩ := fixed f hf
  obtain ⟨a, w, hw⟩ := List.exists_cons_of_ne_nil some
  rw [hw, List.isPrefixOf, Bool.and_eq_true, beq_iff_eq] at stands
  rw [← only (by rw [hw, stands.1]; rfl)]
  exact here

namespace Aligned

variable {s s' : List Char}

/-- Up to the next string or layout aligned texts are the same. -/
theorem exists_common (h : Aligned s s') : ∃ w u u', s = w ++ u ∧ s' = w ++ u' ∧ Ends u ∧ Ends u' ∧
    ∀ k ≤ w.length, Aligned (s.drop k) (s'.drop k) := by
  have stop {u u' : List Char} (h : Aligned u u') (ends : Ends u) (ends' : Ends u') : ∃ w v v',
      u = w ++ v ∧ u' = w ++ v' ∧ Ends v ∧ Ends v' ∧ ∀ k ≤ w.length, Aligned (u.drop k) (u'.drop k) := by
    refine ⟨[], u, u', rfl, rfl, ends, ends', fun k hk => ?_⟩
    rw [Nat.le_zero.mp hk]
    exact h
  induction h with
  | rest s =>
    exact ⟨s, [], [], (List.append_nil s).symm, (List.append_nil s).symm, ends_nil, ends_nil,
      fun k _ => .rest (s.drop k)⟩
  | @char c s s' plain start more ih =>
    obtain ⟨w, u, u', rfl, rfl, ends, ends', each⟩ := ih
    refine ⟨c :: w, u, u', rfl, rfl, ends, ends', fun k hk => ?_⟩
    cases k with
    | zero => exact .char plain start more
    | succ k => exact each k (Nat.le_of_succ_le_succ hk)
  | string is more =>
    have same := stringSize_take is
    exact stop (.string is more) (ends_string is) (ends_string (by rw [same]; exact is))
  | gap was is begins start more => exact stop (.gap was is begins start more) (was.ends _) (is.ends _)

theorem head (h : Aligned s s') : s'.head? = s.head? ∨ ∃ c ∈ s'.head?, isSpace c = true := by
  cases h with
  | rest | char => exact .inl rfl
  | string is =>
    obtain ⟨quote, rest, n, -, rfl, -, size⟩ := exists_quote is
    rw [size]
    exact .inl rfl
  | gap was is begins =>
    rcases begins with space | rfl
    · exact .inr ⟨_, rfl, space⟩
    · exact .inl rfl

/-- No layout is put where there was none, except where a comment is opened. -/
theorem layoutSize (h : Aligned s s') (start : layoutSize s = 0) :
    Lexeme.layoutSize s' = 0 ∨ ∃ t, s = '/' :: '*' :: t := by
  cases h with
  | rest => exact .inl start
  | string is more => exact .inl (layoutSize_string is _)
  | gap was => exact absurd start (was.layoutSize _)
  | @char c s s' plain _ more =>
    by_cases same : c = '/'
    · subst same
      by_cases block : s.head? = some '*'
      · obtain ⟨t, rfl⟩ := List.head?_eq_some_iff.mp block
        exact .inr ⟨t, rfl⟩
      · have line : s.head? ≠ some '/' := by
          intro first
          obtain ⟨t, rfl⟩ := List.head?_eq_some_iff.mp first
          rw [Lexeme.layoutSize] at start
          omega
        refine .inl ?_
        rcases more.head with first | ⟨d, first, is⟩
        · exact layoutSize_solidus (first ▸ line) (first ▸ block)
        · rw [Option.mem_def] at first
          refine layoutSize_solidus ?_ ?_ <;> rw [first] <;> rintro ⟨⟩ <;> cases is
    · exact .inl (layoutSize_eq_zero same (isSpace_of_layoutSize start) _)

theorem eq_nil (h : Aligned [] s') : s' = [] := by
  cases h with
  | rest => rfl
  | string is => exact absurd rfl is

/-- The same token stands at the start of aligned texts. -/
theorem match? {expected : List Terminal} {t : Terminal} {n : Nat} (h : Aligned s s')
    (start : Lexeme.layoutSize s = 0) (is : match? expected s = some (t, n)) :
    Lexeme.match? expected s' = some (t, n) ∧ s'.take n = s.take n ∧ Aligned (s.drop n) (s'.drop n) := by
  obtain ⟨-, some, le⟩ := size_of_match? is
  cases h with
  | rest => exact ⟨is, rfl, .rest _⟩
  | @string _ after found more =>
    obtain ⟨quote, rest, m, quoted, rfl, -, size⟩ := exists_quote found
    rw [match?_quote quoted] at is
    split at is
    next here =>
      cases is
      have same := stringSize_take found after
      have length : ((quote :: rest).take (stringSize (quote :: rest))).length = stringSize (quote :: rest) :=
        List.length_take_of_le le
      refine ⟨?_, List.take_left' length, ?_⟩
      · rw [size, List.take_succ_cons] at same ⊢
        rw [List.cons_append] at same ⊢
        rw [match?_quote quoted, same, if_pos ⟨here.1, Nat.succ_ne_zero m⟩]
      · rw [List.drop_left' length]
        exact more
    next => cases is
  | gap was => exact absurd start (was.layoutSize _)
  | @char c s s' plain _ more =>
    obtain ⟨w, u, u', rfl, rfl, ends, ends', each⟩ := more.exists_common
    rw [← List.cons_append, match?_append plain ends] at is
    have within := (size_of_match? is).2.2
    refine ⟨by rw [← List.cons_append, match?_append plain ends', is], ?_, ?_⟩
    · rw [← List.cons_append, ← List.cons_append, List.take_append_of_le_length within,
        List.take_append_of_le_length within]
    · obtain ⟨n, rfl⟩ := Nat.exists_eq_succ_of_ne_zero some.ne'
      exact each n (Nat.le_of_succ_le_succ within)

theorem lexed_of_start {expected : List Terminal} {t : Terminal} {text rest : List Char} (h : Aligned s s')
    (start : Lexeme.layoutSize s = 0) (is : Lexeme.lexed expected s = some (t, text, rest)) :
    (∃ rest', Lexeme.lexed expected s' = some (t, text, rest') ∧ Aligned rest rest') ∨
      t = .divide ∧ ∃ r, rest = '*' :: r := by
  cases s with
  | nil =>
    obtain rfl := h.eq_nil
    exact .inl ⟨rest, is, .rest rest⟩
  | cons c v =>
    rw [Lexeme.lexed, afterLayout_of_none start] at is
    obtain ⟨⟨t, n⟩, found, is⟩ := Option.map_eq_some_iff.mp is
    cases is
    rcases h.layoutSize start with start' | ⟨r, opens⟩
    · obtain ⟨found', text, more⟩ := h.match? start found
      exact .inl ⟨s'.drop n, by rw [lexed_of_match? start' found', text], more⟩
    · obtain ⟨rfl, rfl⟩ := List.cons.inj opens
      obtain ⟨rfl, rfl⟩ := match?_solidus found
      exact .inr ⟨rfl, r, rfl⟩

/-- The next token of aligned texts is the same. -/
theorem lexed {expected : List Terminal} {t : Terminal} {text rest : List Char} (h : Aligned s s')
    (is : lexed expected s = some (t, text, rest)) :
    (∃ rest', Lexeme.lexed expected s' = some (t, text, rest') ∧ Aligned rest rest') ∨
      t = .divide ∧ ∃ r, rest = '*' :: r := by
  have congr {u v : List Char} (same : afterLayout u = afterLayout v) :
      Lexeme.lexed expected u = Lexeme.lexed expected v := by
    rw [Lexeme.lexed, same, Lexeme.lexed]
  cases h with
  | rest => exact .inl ⟨rest, is, .rest rest⟩
  | string found more =>
    have start := layoutSize_string found (s.drop (stringSize s))
    rw [List.take_append_drop] at start
    exact lexed_of_start (.string found more) start is
  | char plain start more => exact lexed_of_start (.char plain start more) start is
  | gap was filling begins start more =>
    rw [congr (afterLayout_filling was _)] at is
    rw [congr (afterLayout_filling filling _)]
    exact lexed_of_start more start is

end Aligned

end Lexeme

end Covenant
