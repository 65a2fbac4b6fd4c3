import Covenant.Compile
import Covenant.Proofs.Code.Linking
import Mathlib.Data.List.Perm.Basic
/-!
The labels of emitted code: every piece of code has just the labels of its own range of numbers, each
once. So no label of a function stands twice in its code.
-/

namespace Covenant

theorem labelName_injective : Function.Injective labelName := by
  intro m n h
  have digits : Nat.toDigits 10 m = Nat.toDigits 10 n := by
    have := congrArg String.toList h
    simpa [labelName, Decimal.natural, Decimal.digits] using this
  rw [← Nat.ofDigitChars_ten_toDigits (n := m), digits, Nat.ofDigitChars_ten_toDigits]

theorem labelName_ne_empty (n : Nat) : labelName n ≠ "" := by
  intro h
  have := congrArg String.toList h
  simp [labelName] at this

def labelRange (n count : Nat) : List String := (List.range' n count).map labelName

theorem nodup_labelRange (n count : Nat) : (labelRange n count).Nodup :=
  (List.nodup_range' 1).map labelName_injective

theorem labelRange_add (n a b : Nat) :
    labelRange n (a + b) = labelRange n a ++ labelRange (n + a) b := by
  rw [labelRange, labelRange, labelRange, ← List.map_append, List.range'_append_1]

theorem labelRange_one (n : Nat) : labelRange n 1 = [labelName n] := rfl

namespace Code

/-- A piece of code has just the labels of a range of numbers, each once. -/
def Labelled (n count : Nat) (code : Code) : Prop := code.labelNames.Perm (labelRange n count)

namespace Labelled

variable {n count count' : Nat} {a b : Code}

theorem nodup (h : Labelled n count a) : a.labelNames.Nodup :=
  h.nodup_iff.mpr (nodup_labelRange n count)

theorem nil (n : Nat) : Labelled n 0 [] := .refl _

theorem append (ha : Labelled n count a) (hb : Labelled (n + count) count' b) :
    Labelled n (count + count') (a ++ b) := by
  unfold Labelled
  rw [labelNames_append, labelRange_add]
  exact List.Perm.append ha hb

/-- Instructions have no labels. -/
theorem op (ha : Labelled n count a) (i : Instruction String) :
    Labelled n count (a ++ [.op i]) := by
  unfold Labelled
  rw [labelNames_append, labelNames_op, labelNames_nil, List.append_nil]
  exact ha

/-- The first label of a range may stand after the code with the others. -/
theorem label (ha : Labelled (n + 1) count a) :
    Labelled n (1 + count) (a ++ [.label (labelName n)]) := by
  unfold Labelled
  rw [labelNames_append, labelRange_add, labelRange_one]
  exact List.perm_append_comm.trans (List.Perm.append_left [labelName n] ha)

/-- It may also stand before it. -/
theorem cons_label (ha : Labelled (n + 1) count a) :
    Labelled n (1 + count) (.label (labelName n) :: a) := by
  unfold Labelled
  rw [labelRange_add, labelRange_one]
  exact List.Perm.cons _ ha

/-- Only the labels of code matter. -/
theorem of_names (ha : Labelled n count a) (names : b.labelNames.Perm a.labelNames)
    (counts : count' = count) : Labelled n count' b := by
  rw [counts]
  exact names.trans ha

end Labelled

end Code

open Code

namespace Term

mutual
theorem labelled_code (n : Nat) : ∀ t : Term, Labelled n t.labels (t.code n)
  | .literal _ _ | .slot _ | .field _ | .caller => .nil n
  | .member a _ | .referenced _ a | .arraySize a | .textSize a | .not a | .truth a
  | .negate _ a => (labelled_code n a).op _
  | .element a b | .indexOf a b | .includes a b | .appended a b | .arith _ _ a b | .join a b
  | .compare _ a b => ((labelled_code n a).append (labelled_code _ b)).op _
  | .array items => (labelled_codeOfItems n items).op _
  | .both a b | .either a b =>
    (((labelled_code (n + 1) a).append (labelled_code _ b)).label).of_names (by simp [code])
      (by rw [labels, Nat.add_assoc])

theorem labelled_codeOfItems (n : Nat) :
    ∀ items : List Term, Labelled n (labelsOfItems items) (codeOfItems n items)
  | [] => .nil n
  | t :: rest => (labelled_code n t).append (labelled_codeOfItems _ rest)
end

theorem labelled_codeAlong (n : Nat) (read value : Term) (path : List PathStep) :
    Labelled n (labelsAlong read value path) (codeAlong n read value path) := by
  induction path generalizing n read with
  | nil => exact labelled_code n value
  | cons step rest ih =>
    cases step with
    | member name => exact ((labelled_code n read).append (ih _ _)).op _
    | element place =>
      exact (((labelled_code n read).append (labelled_code _ place)).append
        (Nat.add_assoc n .. ▸ ih _ _)).op _

end Term

namespace Action

mutual
theorem labelled_code (n : Nat) : ∀ a : Action, Labelled n a.labels (a.code n)
  | .sequence actions => labelled_codeOfAll n actions
  | .assign root path value => by
    cases root <;> exact (Term.labelled_codeAlong n _ value path).op _
  | .ifThen condition yes =>
    (((Term.labelled_code (n + 1) condition).append (labelled_code _ yes)).label).of_names
      (by simp [code]) (by rw [labels, Nat.add_assoc])
  | .ifElse condition yes no => by
    have first := ((Term.labelled_code (n + 1) condition).append (labelled_code _ yes)).label
    have second := (labelled_code (n + (1 + (condition.labels + yes.labels)) + 1) no).label
    refine (first.append second).of_names ?_ (by rw [labels]; omega)
    have last : n + (1 + (condition.labels + yes.labels)) =
        n + 1 + condition.labels + yes.labels := by omega
    simp [code, last]
  | .loop condition body => by
    have h := (((Term.labelled_code (n + 2) condition).append (labelled_code _ body)).label
      ).cons_label
    exact h.of_names (by simp [code]) (by rw [labels]; omega)
  | .leave none => .nil n
  | .leave (some value) => (Term.labelled_code n value).op _
  | .abort message => (Term.labelled_code n message).op _
  | .evaluate value => (Term.labelled_code n value).op _

theorem labelled_codeOfAll (n : Nat) :
    ∀ actions : List Action, Labelled n (labelsOfAll actions) (codeOfAll n actions)
  | [] => .nil n
  | a :: rest => (labelled_code n a).append (labelled_codeOfAll _ rest)
end

end Action

namespace Policy

mutual
theorem labelled_code (n : Nat) : ∀ p : Policy, Labelled n p.labels (p.code n)
  | .anyone | .denied | .field _ | .key _ => .nil n
  | .delegate _ _ _ => .refl _
  | .anyOf policies => by
    have h := (labelled_codeOfAll (n + 2) (labelName n) policies).cons_label.cons_label
    refine h.of_names ?_ (by rw [labels]; omega)
    have names : ((Policy.anyOf policies).code n).labelNames =
        (codeOfAll (n + 2) (labelName n) policies).labelNames ++
          [labelName n, labelName (n + 1)] := by
      simp [code, truth]
    rw [names]
    exact List.perm_append_comm

theorem labelled_codeOfAll (n : Nat) (satisfied : String) :
    ∀ policies : List Policy, Labelled n (labelsOfAll policies) (codeOfAll n satisfied policies)
  | [] => .nil n
  | p :: rest => ((labelled_code n p).op _).append (labelled_codeOfAll _ satisfied rest)
end

end Policy

/-- No label stands twice in the code of a function. -/
theorem CheckedFunction.nodup_labelNames (f : CheckedFunction) : f.code.labelNames.Nodup := by
  have body := Action.labelled_code f.guardLabels f.body
  have guard : Labelled 0 f.guardLabels f.guard := by
    unfold guard guardLabels
    split
    · exact .nil 0
    · exact ((Policy.labelled_code 1 f.policy).label).of_names (by simp) rfl
  have ending : f.ending.labelNames = [] := by
    unfold ending
    split <;> rfl
  have whole : Labelled 0 (f.guardLabels + f.body.labels) f.code :=
    (guard.append (by simpa using body)).of_names (by simp [code, ending]) rfl
  exact whole.nodup

end Covenant
