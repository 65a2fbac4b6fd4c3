import Covenant.Compile
import Covenant.Proofs.Code.Lines
/-!
Emitted code keeps to itself.

* `Code.Ordinary`: code of known instructions that do not refuse the caller and jump to given labels only;
* `Term.ordinary_code`, `Action.ordinary_code`, `Policy.ordinary_code`: emitted code is such code, with
  labels of its own.
-/

namespace Covenant

namespace Code

/-- Code of known instructions that do not refuse the caller and jump to given labels only. -/
def Ordinary (names : List String) (code : Code) : Prop :=
  ∀ i, .instruction i ∈ code → i.isKnown = true ∧ i.refuses = false ∧
    ∀ name, i.jumpTarget? = some name → name ∈ names

variable {names : List String} {a b : Code}

@[simp] theorem ordinary_nil : Ordinary names [] := by
  intro i hi
  cases hi

@[simp] theorem ordinary_append : Ordinary names (a ++ b) ↔ Ordinary names a ∧ Ordinary names b := by
  constructor
  · exact fun h => ⟨fun i hi => h i (List.mem_append_left _ hi),
      fun i hi => h i (List.mem_append_right _ hi)⟩
  · exact fun h i hi => (List.mem_append.mp hi).elim (h.1 i) (h.2 i)

@[simp] theorem ordinary_label {name : String} :
    Ordinary names (.label name :: a) ↔ Ordinary names a := by
  simp [Ordinary]

@[simp] theorem ordinary_op {i : Instruction String} : Ordinary names (.op i :: a) ↔
    (i.isKnown = true ∧ i.refuses = false ∧ ∀ name, i.jumpTarget? = some name → name ∈ names) ∧
      Ordinary names a := by
  simp [Ordinary, Line.op]

end Code

open Code

namespace Term

mutual
theorem ordinary_code (n : Nat) : ∀ (t : Term) {names : List String},
    (t.code n).labelNames ⊆ names → Ordinary names (t.code n)
  | .literal _ _, _, _ | .slot _, _, _ | .field _, _, _ | .caller, _, _ => by
    simp [code, Instruction.isKnown, Instruction.refuses, Instruction.jumpTarget?]
  | .member a _, _, h | .referenced _ a, _, h | .arraySize a, _, h | .textSize a, _, h
  | .not a, _, h | .truth a, _, h | .negate _ a, _, h => by
    simp only [code, labelNames_append, labelNames_op, labelNames_nil, List.append_nil] at h
    simp [code, Instruction.isKnown, Instruction.refuses, Instruction.jumpTarget?,
      ordinary_code n a h]
  | .element a b, _, h | .indexOf a b, _, h | .includes a b, _, h | .appended a b, _, h
  | .arith _ _ a b, _, h | .join a b, _, h | .compare _ a b, _, h => by
    simp only [code, labelNames_append, labelNames_op, labelNames_nil, List.append_nil,
      List.append_subset] at h
    simp [code, Instruction.isKnown, Instruction.refuses, Instruction.jumpTarget?,
      ordinary_code n a h.1, ordinary_code _ b h.2]
  | .array items, _, h => by
    simp only [code, labelNames_append, labelNames_op, labelNames_nil, List.append_nil] at h
    simp [code, Instruction.isKnown, Instruction.refuses, Instruction.jumpTarget?,
      ordinary_codeOfItems n items h]
  | .both a b, _, h | .either a b, _, h => by
    simp only [code, labelNames_append, labelNames_op, labelNames_nil, labelNames_label,
      List.append_nil, List.append_subset, List.cons_subset] at h
    simp [code, Instruction.isKnown, Instruction.refuses, Instruction.jumpTarget?,
      ordinary_code _ a h.1.1, ordinary_code _ b h.1.2, h.2.1]

theorem ordinary_codeOfItems (n : Nat) : ∀ (items : List Term) {names : List String},
    (codeOfItems n items).labelNames ⊆ names → Ordinary names (codeOfItems n items)
  | [], _, _ => ordinary_nil
  | t :: rest, _, h => by
    simp only [codeOfItems, labelNames_append, List.append_subset] at h
    exact ordinary_append.mpr ⟨ordinary_code n t h.1, ordinary_codeOfItems _ rest h.2⟩
end

theorem ordinary_codeAlong (n : Nat) (read value : Term) (path : List PathStep)
    {names : List String} (h : (codeAlong n read value path).labelNames ⊆ names) :
    Ordinary names (codeAlong n read value path) := by
  induction path generalizing n read with
  | nil => exact ordinary_code n value h
  | cons step rest ih =>
    cases step with
    | member name =>
      simp only [codeAlong, labelNames_append, labelNames_op, labelNames_nil, List.append_nil,
        List.append_subset] at h
      simp [codeAlong, Instruction.isKnown, Instruction.refuses, Instruction.jumpTarget?,
        ordinary_code n read h.1, ih _ _ h.2]
    | element place =>
      simp only [codeAlong, labelNames_append, labelNames_op, labelNames_nil, List.append_nil,
        List.append_subset] at h
      simp [codeAlong, Instruction.isKnown, Instruction.refuses, Instruction.jumpTarget?,
        ordinary_code n read h.1.1, ordinary_code _ place h.1.2, ih _ _ h.2]

end Term

namespace Action

mutual
theorem ordinary_code (n : Nat) : ∀ (a : Action) {names : List String},
    (a.code n).labelNames ⊆ names → Ordinary names (a.code n)
  | .sequence actions, _, h => ordinary_codeOfAll n actions h
  | .assign root path value, _, h => by
    have stored : labelNames [root.store] = [] := by cases root <;> rfl
    rw [code, labelNames_append, stored, List.append_nil] at h
    refine ordinary_append.mpr ⟨Term.ordinary_codeAlong n root.read value path h, ?_⟩
    cases root <;>
      simp [Root.store, Instruction.isKnown, Instruction.refuses, Instruction.jumpTarget?]
  | .ifThen condition yes, _, h => by
    simp only [code, labelNames_append, labelNames_op, labelNames_nil, labelNames_label,
      List.append_nil, List.append_subset, List.cons_subset] at h
    simp [code, Instruction.isKnown, Instruction.refuses, Instruction.jumpTarget?,
      Term.ordinary_code _ condition h.1.1, ordinary_code _ yes h.1.2, h.2.1]
  | .ifElse condition yes no, _, h => by
    simp only [code, labelNames_append, labelNames_op, labelNames_nil, labelNames_label,
      List.append_nil, List.append_subset, List.cons_subset] at h
    simp [code, Instruction.isKnown, Instruction.refuses, Instruction.jumpTarget?,
      Term.ordinary_code _ condition h.1.1.1.1, ordinary_code _ yes h.1.1.1.2,
      ordinary_code _ no h.1.2, h.1.1.2.1, h.2.1]
  | .loop condition body, _, h => by
    simp only [code, labelNames_append, labelNames_op, labelNames_nil, labelNames_label,
      List.append_nil, List.append_subset, List.cons_subset] at h
    simp [code, Instruction.isKnown, Instruction.refuses, Instruction.jumpTarget?,
      Term.ordinary_code _ condition h.1.1.2, ordinary_code _ body h.1.2, h.1.1.1.1, h.2.1]
  | .leave none, _, _ => by
    simp [code, Instruction.isKnown, Instruction.refuses, Instruction.jumpTarget?]
  | .leave (some value), _, h | .abort value, _, h | .evaluate value, _, h => by
    simp only [code, labelNames_append, labelNames_op, labelNames_nil, List.append_nil] at h
    simp [code, Instruction.isKnown, Instruction.refuses, Instruction.jumpTarget?,
      Term.ordinary_code n value h]

theorem ordinary_codeOfAll (n : Nat) : ∀ (actions : List Action) {names : List String},
    (codeOfAll n actions).labelNames ⊆ names → Ordinary names (codeOfAll n actions)
  | [], _, _ => ordinary_nil
  | a :: rest, _, h => by
    simp only [codeOfAll, labelNames_append, List.append_subset] at h
    exact ordinary_append.mpr ⟨ordinary_code n a h.1, ordinary_codeOfAll _ rest h.2⟩
end

end Action

namespace Policy

mutual
theorem ordinary_code (n : Nat) : ∀ (p : Policy) {names : List String},
    (p.code n).labelNames ⊆ names → Ordinary names (p.code n)
  | .anyone, _, _ | .denied, _, _ | .field _, _, _ | .key _, _, _ => by
    simp [code, truth, Instruction.isKnown, Instruction.refuses, Instruction.jumpTarget?]
  | .delegate _ _ _, _, h => by
    simp only [code, truth, labelNames_op, labelNames_nil, labelNames_label,
      List.cons_subset] at h
    simp [code, truth, Instruction.isKnown, Instruction.refuses, Instruction.jumpTarget?, h.1, h.2.1]
  | .anyOf policies, _, h => by
    simp only [code, truth, labelNames_append, labelNames_op, labelNames_nil, labelNames_label,
      List.append_subset, List.cons_subset] at h
    simp [code, truth, Instruction.isKnown, Instruction.refuses, Instruction.jumpTarget?,
      ordinary_codeOfAll _ _ policies h.2.1 h.1, h.2.2.1]

theorem ordinary_codeOfAll (n : Nat) (satisfied : String) :
    ∀ (policies : List Policy) {names : List String}, satisfied ∈ names →
      (codeOfAll n satisfied policies).labelNames ⊆ names →
        Ordinary names (codeOfAll n satisfied policies)
  | [], _, _, _ => ordinary_nil
  | p :: rest, _, known, h => by
    simp only [codeOfAll, labelNames_append, labelNames_op, labelNames_nil, List.append_nil,
      List.append_subset] at h
    simp [codeOfAll, Instruction.isKnown, Instruction.refuses, Instruction.jumpTarget?, known,
      ordinary_code n p h.1, ordinary_codeOfAll _ satisfied rest known h.2]
end

end Policy

end Covenant
