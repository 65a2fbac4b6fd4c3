import Covenant.Proofs.Number.Decimal
import Covenant.Text.Digit
/-!
Cutting text into lines, taking the blanks from its ends, and reading decimal digits.
-/

namespace Covenant.Text

/-- A line end beyond the ASCII range: next line, line separator or paragraph separator. -/
def IsSeparator (c : Char) : Prop := c.toNat = 0x85 ∨ c.toNat = 0x2028 ∨ c.toNat = 0x2029

instance (c : Char) : Decidable (IsSeparator c) := inferInstanceAs (Decidable (_ ∨ _))

/-- Characters none of which has a property, as it can be computed. -/
theorem forall_mem_of_any {p : Char → Bool} {s : List Char} (h : s.any p = false) :
    ∀ c ∈ s, p c = false := by
  intro c hc
  have no := List.any_eq_false.mp h c hc
  exact eq_false_of_ne_true no

theorem isLineEnd_of_isSeparator {c : Char} (h : IsSeparator c) : isLineEnd c = true := by
  rcases h with h | h | h <;> simp [isLineEnd, h]

theorem isBlank_of_isLineEnd {c : Char} (h : isLineEnd c = true) : isBlank c = true := by
  simp only [isLineEnd, isBlank, blankRanges, Bool.or_eq_true, Bool.and_eq_true, decide_eq_true_eq,
    beq_iff_eq, List.any_cons, List.any_nil, Bool.or_false] at h ⊢
  omega

/-! ## Lines -/

/-- The characters of a line that has been begun are put before what follows. -/
theorem linesFrom_append {a : List Char} (h : ∀ c ∈ a, isLineEnd c = false) (current rest : List Char) :
    linesFrom current (a ++ rest) = linesFrom (a.reverse ++ current) rest := by
  induction a generalizing current with
  | nil => rfl
  | cons c a ih =>
    have plain := h c (List.mem_cons_self ..)
    have step : linesFrom current (c :: (a ++ rest)) = linesFrom (c :: current) (a ++ rest) := by
      rw [linesFrom]
      · rw [plain]
        rfl
      · rintro rest' rfl -
        cases plain
    rw [List.cons_append, step, ih (fun d hd => h d (List.mem_cons_of_mem _ hd)), List.reverse_cons,
      List.append_assoc]
    rfl

theorem linesFrom_end {c : Char} (h : isLineEnd c = true) (other : c ≠ '\r') (current rest : List Char) :
    linesFrom current (c :: rest) = current.reverse :: linesFrom [] rest := by
  rw [linesFrom]
  · rw [if_pos h]
  · rintro rest' rfl -
    exact other rfl

/-- A line without line ends, then its end. -/
theorem lines_line {a : List Char} (h : ∀ c ∈ a, isLineEnd c = false) (rest : List Char) :
    lines (a ++ '\n' :: rest) = a :: lines rest := by
  rw [lines, linesFrom_append h, linesFrom_end rfl (by decide), List.append_nil, List.reverse_reverse]
  rfl

def hasText (line : List Char) : Bool := !(trim line).isEmpty

def shown (s : List Char) : List (List Char) := (lines s).filter hasText

theorem trim_of_ends {s : List Char} (first : ∀ c ∈ s.head?, isBlank c = false)
    (last : ∀ c ∈ s.getLast?, isBlank c = false) : trim s = s := by
  have drop : ∀ {s : List Char}, (∀ c ∈ s.head?, isBlank c = false) → s.dropWhile isBlank = s := by
    intro s h
    cases s with
    | nil => rfl
    | cons c s => exact List.dropWhile_cons_of_neg (by rw [h c rfl]; decide)
  have drop_last : s.reverse.dropWhile isBlank = s.reverse := drop fun c hc => last c (by
    rwa [List.head?_reverse] at hc)
  rw [trim, drop first, drop_last, List.reverse_reverse]

theorem trim_ne_nil {s : List Char} (h : ∃ c ∈ s, isBlank c = false) : trim s ≠ [] := by
  obtain ⟨c, hc, visible⟩ := h
  have keeps : ∀ {s : List Char}, c ∈ s → c ∈ s.dropWhile isBlank := by
    intro s hs
    have split := List.takeWhile_append_dropWhile (p := isBlank) (l := s)
    rw [← split] at hs
    refine (List.mem_append.mp hs).resolve_left fun blank => ?_
    have all := List.all_takeWhile (p := isBlank) (l := s)
    rw [List.all_eq_true.mp all c blank] at visible
    cases visible
  have mem : c ∈ trim s := by
    rw [trim, List.mem_reverse]
    exact keeps (List.mem_reverse.mpr (keeps hc))
  exact List.ne_nil_of_mem mem

theorem hasText_of_visible {s : List Char} (h : ∃ c ∈ s, isBlank c = false) : hasText s = true := by
  unfold hasText
  cases ht : trim s with
  | nil => exact absurd ht (trim_ne_nil h)
  | cons => rfl

theorem shown_line {a : List Char} (h : ∀ c ∈ a, isLineEnd c = false)
    (visible : ∃ c ∈ a, isBlank c = false) (rest : List Char) :
    shown (a ++ '\n' :: rest) = a :: shown rest := by
  rw [shown, lines_line h, List.filter_cons_of_pos (hasText_of_visible visible)]
  rfl

section Cutting

variable {a : List Char} (h : '\r' ∉ a) {mark : Char} (marks : isLineEnd mark = true) (other : mark ≠ '\r')

include h marks other in
/-- However a text is cut, what stands after a line end is cut by itself. -/
theorem shown_after (current rest : List Char) :
    (shown rest).length ≤ ((linesFrom current (a ++ mark :: rest)).filter hasText).length := by
  induction a generalizing current with
  | nil =>
    rw [List.nil_append, linesFrom_end marks other]
    exact (List.sublist_cons_self _ _).filter _ |>.length_le
  | cons c a ih =>
    rw [List.mem_cons, not_or] at h
    by_cases ends : isLineEnd c = true
    · rw [List.cons_append, linesFrom_end ends (Ne.symm h.1)]
      exact (ih h.2 []).trans ((List.sublist_cons_self _ _).filter _ |>.length_le)
    · have step := linesFrom_append (a := [c]) (by simpa using ends) current (a ++ mark :: rest)
      rw [List.singleton_append] at step
      rw [List.cons_append, step]
      exact ih h.2 _

include h marks other in
/-- A text with something to show and a line end is cut into at least one line before the others. -/
theorem shown_before (current rest : List Char) (visible : ∃ c ∈ current.reverse ++ a, isBlank c = false) :
    (shown rest).length < ((linesFrom current (a ++ mark :: rest)).filter hasText).length := by
  induction a generalizing current with
  | nil =>
    rw [List.append_nil] at visible
    rw [List.nil_append, linesFrom_end marks other, List.filter_cons_of_pos (hasText_of_visible visible)]
    exact Nat.lt_succ_self _
  | cons c a ih =>
    rw [List.mem_cons, not_or] at h
    by_cases ends : isLineEnd c = true
    · rw [List.cons_append, linesFrom_end ends (Ne.symm h.1)]
      by_cases begun : ∃ c ∈ current.reverse, isBlank c = false
      · rw [List.filter_cons_of_pos (hasText_of_visible begun), List.length_cons]
        exact Nat.lt_succ_of_le (shown_after h.2 marks other [] rest)
      · refine (ih h.2 [] ?_).trans_le ((List.sublist_cons_self _ _).filter _ |>.length_le)
        obtain ⟨d, hd, shows⟩ := visible
        rcases List.mem_append.mp hd with hd | hd
        · exact absurd ⟨d, hd, shows⟩ begun
        rcases List.mem_cons.mp hd with rfl | hd
        · rw [isBlank_of_isLineEnd ends] at shows
          cases shows
        · exact ⟨d, hd, shows⟩
    · have step := linesFrom_append (a := [c]) (by simpa using ends) current (a ++ mark :: rest)
      rw [List.singleton_append] at step
      rw [List.cons_append, step]
      refine ih h.2 _ ?_
      simpa using visible

end Cutting

/-! ## Digits -/

theorem digit?_of_isDigit {c : Char} (h : Decimal.IsDigit c) : digit? c = some (c.toNat - '0'.toNat) := by
  have small : c.toNat < 0x80 := Nat.lt_of_le_of_lt (h.2 : c.toNat ≤ '9'.toNat) (by decide)
  rw [digit?, if_pos small, if_pos (show '0' ≤ c ∧ c ≤ '9' from h)]
  rfl

theorem digitsWithLowLines_of_digits {ds : List Char} (h : ∀ c ∈ ds, Decimal.IsDigit c) :
    digitsWithLowLines ds = some (ds.map fun c => c.toNat - '0'.toNat) := by
  induction ds with
  | nil => rfl
  | cons c ds ih =>
    have digit := h c (List.mem_cons_self ..)
    rw [digitsWithLowLines]
    · rw [digit?_of_isDigit digit, ih fun d hd => h d (List.mem_cons_of_mem _ hd)]
      rfl
    · rintro d rest rfl -
      exact absurd digit (by decide)

/-- A natural is read from its digits unless there are too many. -/
theorem naturalOf?_digits {n : Nat} (h : (Decimal.digits n).length ≤ digitLimit) :
    naturalOf? (Decimal.digits n) = some n := by
  have digits : ∀ c ∈ Decimal.digits n, Decimal.IsDigit c := fun c hc => Decimal.isDigit_of_mem_digits hc
  have value := Decimal.value_digits n
  cases hd : Decimal.digits n with
  | nil => exact absurd hd (Decimal.digits_ne_nil n)
  | cons c ds =>
    rw [hd] at digits value h
    rw [List.length_cons] at h
    have fold : ((c :: ds).map fun c => c.toNat - '0'.toNat).foldl (fun n d => 10 * n + d) 0 = n := by
      rw [List.foldl_map]
      exact value
    rw [naturalOf?, digit?_of_isDigit (digits c (List.mem_cons_self ..)),
      digitsWithLowLines_of_digits fun d hd => digits d (List.mem_cons_of_mem _ hd)]
    rw [List.map_cons] at fold
    simp only [List.length_map, if_pos (show ds.length < digitLimit by omega), fold]

end Covenant.Text
