import Covenant.Code.Uses
import Covenant.Proofs.Compile.Jumps
import Covenant.Proofs.Machine.Departures
/-!
What lies on every way through code to where it leaves the function.

* `Code.Confined`: code that does not leave the function and jumps within itself only;
* `Code.Passes`: only such code stands before a piece of code;
* `Term.pursues_code`, `Action.pursues_code`: so it is with the references that are followed, those in
  dead actions excepted (`Action.live`);
* `Linkage.exists_reaches_of_passes`: a run that leaves the function has come to each such piece.
-/

namespace Covenant

namespace Code

def Stays (code : Code) : Prop := ∀ i, .instruction i ∈ code → i.departs = false

/-- Code that does not leave the function, whose jumps go to its own labels. -/
def Confined (code : Code) : Prop :=
  code.Stays ∧ ∀ i, .instruction i ∈ code → ∀ name, i.jumpTarget? = some name → name ∈ code.labelNames

/-- Code that comes to a piece of code before it leaves the function. -/
def Passes (piece code : Code) : Prop := ∃ pre post, code = pre ++ (piece ++ post) ∧ Confined pre

/-- Code that follows the reference in a field before it leaves the function. -/
def Pursues (field : String) (code : Code) : Prop :=
  ∃ contract, Passes [.op (.loadThis field), .op (.deref contract)] code

variable {a b piece : Code} {field : String}

@[simp] theorem stays_nil : Stays [] := by
  intro i hi
  cases hi

@[simp] theorem stays_append : Stays (a ++ b) ↔ a.Stays ∧ b.Stays := by
  constructor
  · exact fun h => ⟨fun i hi => h i (List.mem_append_left _ hi),
      fun i hi => h i (List.mem_append_right _ hi)⟩
  · exact fun h i hi => (List.mem_append.mp hi).elim (h.1 i) (h.2 i)

@[simp] theorem stays_label {name : String} : Stays (.label name :: a) ↔ a.Stays := by
  simp [Stays]

@[simp] theorem stays_op {i : Instruction String} :
    Stays (.op i :: a) ↔ i.departs = false ∧ a.Stays := by
  simp [Stays, Line.op]

theorem Stays.confined (stays : a.Stays) (ordinary : Ordinary a.labelNames a) : a.Confined :=
  ⟨stays, fun i hi => (ordinary i hi).2.2⟩

namespace Confined

theorem nil : Confined [] := stays_nil.confined ordinary_nil

theorem append (ha : a.Confined) (hb : b.Confined) : Confined (a ++ b) := by
  refine ⟨stays_append.mpr ⟨ha.1, hb.1⟩, fun i hi name hn => ?_⟩
  rw [labelNames_append]
  rcases List.mem_append.mp hi with hi | hi
  · exact List.mem_append_left _ (ha.2 i hi name hn)
  · exact List.mem_append_right _ (hb.2 i hi name hn)

theorem label (name : String) : Confined [.label name] :=
  (stays_label.mpr stays_nil).confined (ordinary_label.mpr ordinary_nil)

/-- One instruction that does not jump. -/
theorem op {i : Instruction String} (stays : i.departs = false) (straight : i.jumpTarget? = none) :
    Confined [.op i] := by
  refine ⟨stays_op.mpr ⟨stays, stays_nil⟩, fun j hj name hn => ?_⟩
  cases List.mem_singleton.mp hj
  rw [straight] at hn
  cases hn

end Confined

namespace Passes

theorem here (piece post : Code) : Passes piece (piece ++ post) := ⟨[], post, rfl, .nil⟩

theorem append (h : Passes piece a) (b : Code) : Passes piece (a ++ b) := by
  obtain ⟨pre, post, rfl, confined⟩ := h
  exact ⟨pre, post ++ b, by simp, confined⟩

theorem after (confined : a.Confined) (h : Passes piece b) : Passes piece (a ++ b) := by
  obtain ⟨pre, post, rfl, confined'⟩ := h
  exact ⟨a ++ pre, post, by simp, confined.append confined'⟩

end Passes

namespace Pursues

theorem append (h : Pursues field a) (b : Code) : Pursues field (a ++ b) :=
  h.imp fun _ h => h.append b

theorem after (confined : a.Confined) (h : Pursues field b) : Pursues field (a ++ b) :=
  h.imp fun _ h => h.after confined

end Pursues

end Code

open Code Machine

/-! ## Linked code -/

namespace Linkage

variable {l : Linkage} {place : Nat} {code piece : Code}

/-- The labels of a piece of code mark no places past it. -/
theorem Holds.label_le (holds : l.Holds place code) {name : String} (here : name ∈ code.labelNames)
    {q : Nat} (marks : l.labels.lookup name = some q) : q ≤ place + size code := by
  induction code generalizing place with
  | nil => cases here
  | cons line rest ih =>
    cases line with
    | label other =>
      rcases List.mem_cons.mp here with rfl | later
      · cases holds.1.symm.trans marks
        exact Nat.le_add_right _ _
      · exact ih holds.2 later
    | instruction i =>
      have := ih holds.2 here
      rw [size]
      omega

/-- A run that leaves the function has come to each piece that its code passes. -/
theorem exists_reaches_of_passes {heights : Nat → Option Nat} (level : LinkedCode.Level l.code heights)
    (known : l.code.Known) (holds : l.Holds 0 code) (passes : Passes piece code) {s : Surroundings}
    {m : Machine} (first : m.place = 0) (height : heights m.place = some m.stack.length)
    (departs : Departs l.code s m) :
    ∃ n m', Reaches l.code s m n m' ∧ l.Holds m'.place piece ∧ Departs l.code s m' := by
  obtain ⟨pre, post, rfl, stays, jumps⟩ := passes
  obtain ⟨before, here⟩ := holds_append.mp holds
  have inside : ∀ {p i}, p < size pre → l.code[p]? = some i → i.departs = false ∧
      ∀ target, i.jumpTarget? = some target → target ≤ size pre := by
    intro p i early hi
    obtain ⟨i', hi', j, linked, there⟩ := before.exists_at early
    rw [Nat.zero_add] at there
    cases hi.symm.trans there
    refine ⟨(departs_of_linkInstruction linked).trans (stays i' hi'), fun target jump => ?_⟩
    obtain ⟨name, named, marks⟩ := (linkInstruction_shape linked).target target jump
    exact Nat.zero_add (size pre) ▸ before.label_le (jumps i' hi' name named) marks
  obtain ⟨n, m', reached, there, departs'⟩ :=
    level.exists_reaches_of_departs known inside height (first ▸ Nat.zero_le _) departs
  rw [Nat.zero_add, ← there] at here
  exact ⟨n, m', reached, (holds_append.mp here).1, departs'⟩

end Linkage

/-! ## Terms -/

namespace Term

mutual
theorem stays_code (n : Nat) : ∀ t : Term, Stays (t.code n)
  | .literal _ _ | .slot _ | .field _ | .caller => by simp [code, Instruction.departs]
  | .member a _ | .referenced _ a | .arraySize a | .textSize a | .not a | .truth a | .negate _ a => by
    simp [code, Instruction.departs, stays_code n a]
  | .element a b | .indexOf a b | .includes a b | .appended a b | .arith _ _ a b | .join a b
  | .compare _ a b => by
    simp [code, Instruction.departs, stays_code n a, stays_code (n + a.labels) b]
  | .array items => by simp [code, Instruction.departs, stays_codeOfItems n items]
  | .both a b | .either a b => by
    simp [code, Instruction.departs, stays_code (n + 1) a, stays_code (n + 1 + a.labels) b]

theorem stays_codeOfItems (n : Nat) : ∀ items : List Term, Stays (codeOfItems n items)
  | [] => stays_nil
  | t :: rest => stays_append.mpr ⟨stays_code n t, stays_codeOfItems _ rest⟩
end

theorem confined_code (n : Nat) (t : Term) : Confined (t.code n) :=
  (t.stays_code n).confined (t.ordinary_code n (List.Subset.refl _))

theorem stays_codeAlong (n : Nat) (read value : Term) (path : List PathStep) :
    Stays (codeAlong n read value path) := by
  induction path generalizing n read with
  | nil => exact stays_code n value
  | cons step rest ih =>
    cases step <;> simp [codeAlong, Instruction.departs, stays_code, ih]

theorem mem_followed_referenced {contract field : String} {reference : Term}
    (h : field ∈ (referenced contract reference).followed) :
    reference = .field field ∨ field ∈ reference.followed := by
  cases reference with
  | field name =>
    obtain rfl := List.mem_singleton.mp h
    exact .inl rfl
  | _ => exact .inr h

mutual
/-- The code of a term follows the references that are followed whenever it is evaluated. -/
theorem pursues_code {field : String} (n : Nat) :
    ∀ t : Term, field ∈ t.followed → Pursues field (t.code n)
  | .literal _ _, h | .slot _, h | .field _, h | .caller, h => nomatch h
  | .referenced contract reference, h => by
    rcases mem_followed_referenced h with rfl | h
    · exact ⟨contract, .here _ []⟩
    · exact (pursues_code n reference h).append _
  | .member a _, h | .arraySize a, h | .textSize a, h | .not a, h | .truth a, h
  | .negate _ a, h => (pursues_code n a h).append _
  | .element a b, h | .indexOf a b, h | .includes a b, h | .appended a b, h | .arith _ _ a b, h
  | .join a b, h | .compare _ a b, h => by
    rcases List.mem_append.mp h with h | h
    · exact ((pursues_code n a h).append _).append _
    · exact ((pursues_code _ b h).after (a.confined_code n)).append _
  | .array items, h => (pursues_codeOfItems n items h).append _
  | .both a _, h | .either a _, h => (((pursues_code (n + 1) a h).append _).append _).append _

theorem pursues_codeOfItems {field : String} (n : Nat) :
    ∀ items : List Term, field ∈ followedByItems items → Pursues field (codeOfItems n items)
  | [], h => nomatch h
  | t :: rest, h => by
    rcases List.mem_append.mp h with h | h
    · exact (pursues_code n t h).append _
    · exact (pursues_codeOfItems _ rest h).after (t.confined_code n)
end

theorem pursues_codeAlong {field : String} (n : Nat) (read value : Term) (path : List PathStep)
    (h : field ∈ followedAlong read value path) : Pursues field (codeAlong n read value path) := by
  induction path generalizing n read with
  | nil => exact pursues_code n value h
  | cons step rest ih =>
    cases step with
    | member name =>
      rcases List.mem_append.mp h with h | h
      · exact ((pursues_code n read h).append _).append _
      · exact ((ih _ _ h).after (read.confined_code n)).append _
    | element place =>
      rcases List.mem_append.mp h with h | h
      · refine Pursues.append ?_ _
        refine Pursues.append ?_ _
        rcases List.mem_append.mp h with h | h
        · exact (pursues_code n read h).append _
        · exact (pursues_code _ place h).after (read.confined_code n)
      · exact ((ih _ _ h).after ((read.confined_code n).append (place.confined_code _))).append _

end Term

/-! ## Actions -/

namespace Action

mutual
def ends : Action → Bool
  | .sequence actions => endsIn actions
  | .ifElse _ yes no => yes.ends && no.ends
  | .leave _ => true
  | .ifThen _ _ | .loop _ _ | .assign _ _ _ | .abort _ | .evaluate _ => false

def endsIn : List Action → Bool
  | [] => false
  | a :: rest => a.ends || endsIn rest
end

mutual
/-- An action without the dead ones in it, which stand after one that always leaves the function. -/
def live : Action → Action
  | .sequence actions => .sequence (liveOf actions)
  | .ifThen condition yes => .ifThen condition yes.live
  | .ifElse condition yes no => .ifElse condition yes.live no.live
  | .loop condition body => .loop condition body.live
  | .leave value => .leave value
  | .assign root path value => .assign root path value
  | .abort message => .abort message
  | .evaluate value => .evaluate value

def liveOf : List Action → List Action
  | [] => []
  | a :: rest => a.live :: if a.ends then [] else liveOf rest
end

mutual
theorem stays_code (n : Nat) : ∀ a : Action, a.leaves = false → Stays (a.code n)
  | .sequence actions, h => stays_codeOfAll n actions h
  | .assign root path value, _ => by
    rw [code, stays_append]
    refine ⟨Term.stays_codeAlong n root.read value path, ?_⟩
    cases root <;> simp [Root.store, Instruction.departs]
  | .ifThen condition yes, h => by
    simp [code, Instruction.departs, Term.stays_code, stays_code (n + 1 + condition.labels) yes h]
  | .ifElse condition yes no, h => by
    rw [leaves, Bool.or_eq_false_iff] at h
    simp [code, Instruction.departs, Term.stays_code, stays_code (n + 1 + condition.labels) yes h.1,
      stays_code (n + 1 + condition.labels + yes.labels + 1) no h.2]
  | .loop condition body, h => by
    simp [code, Instruction.departs, Term.stays_code, stays_code (n + 2 + condition.labels) body h]
  | .leave _, h => nomatch h
  | .abort value, _ | .evaluate value, _ => by simp [code, Instruction.departs, Term.stays_code]

theorem stays_codeOfAll (n : Nat) :
    ∀ actions : List Action, leavesIn actions = false → Stays (codeOfAll n actions)
  | [], _ => stays_nil
  | a :: rest, h => by
    rw [leavesIn, Bool.or_eq_false_iff] at h
    exact stays_append.mpr ⟨stays_code n a h.1, stays_codeOfAll _ rest h.2⟩
end

theorem confined_code (n : Nat) (a : Action) (h : a.leaves = false) : Confined (a.code n) :=
  (a.stays_code n h).confined (a.ordinary_code n (List.Subset.refl _))

mutual
theorem leaves_of_ends : ∀ a : Action, a.ends = true → a.leaves = true
  | .sequence actions, h => leavesIn_of_endsIn actions h
  | .ifElse _ yes no, h => by
    rw [ends, Bool.and_eq_true] at h
    rw [leaves, leaves_of_ends yes h.1, Bool.true_or]
  | .leave _, _ => rfl

theorem leavesIn_of_endsIn : ∀ actions : List Action, endsIn actions = true → leavesIn actions = true
  | a :: rest, h => by
    rw [endsIn, Bool.or_eq_true] at h
    rw [leavesIn, Bool.or_eq_true]
    exact h.imp (leaves_of_ends a) (leavesIn_of_endsIn rest)
end

mutual
/-- Dead actions do not count for whether an action leaves the function. -/
theorem leaves_live : ∀ a : Action, a.live.leaves = a.leaves
  | .sequence actions => leavesIn_liveOf actions
  | .ifThen _ yes => leaves_live yes
  | .ifElse _ yes no => by rw [live, leaves, leaves, leaves_live yes, leaves_live no]
  | .loop _ body => leaves_live body
  | .leave _ | .assign _ _ _ | .abort _ | .evaluate _ => rfl

theorem leavesIn_liveOf : ∀ actions : List Action, leavesIn (liveOf actions) = leavesIn actions
  | [] => rfl
  | a :: rest => by
    rw [liveOf, leavesIn, leavesIn, leaves_live a]
    cases h : a.ends with
    | true => rw [leaves_of_ends a h, Bool.true_or, Bool.true_or]
    | false => exact congrArg _ (leavesIn_liveOf rest)
end

mutual
/-- What neither always leaves the function nor may leave it does not leave it. -/
theorem leaves_eq_false : ∀ a : Action, a.ends = false → a.live.mayLeave = false → a.leaves = false
  | .sequence actions, h, h' => leavesIn_eq_false actions h h'
  | .ifThen _ yes, _, h' => (leaves_live yes).symm.trans h'
  | .ifElse _ yes no, _, h' => by
    rw [leaves, ← leaves_live yes, ← leaves_live no]
    exact h'
  | .loop _ body, _, h' => (leaves_live body).symm.trans h'
  | .leave _, h, _ => nomatch h
  | .assign _ _ _, _, _ | .abort _, _, _ | .evaluate _, _, _ => rfl

theorem leavesIn_eq_false : ∀ actions : List Action, endsIn actions = false →
    mayLeaveIn (liveOf actions) = false → leavesIn actions = false
  | [], _, _ => rfl
  | a :: rest, h, h' => by
    rw [endsIn, Bool.or_eq_false_iff] at h
    rw [liveOf, mayLeaveIn, h.1, Bool.or_eq_false_iff] at h'
    rw [leavesIn, leaves_eq_false a h.1 h'.1, leavesIn_eq_false rest h.2 h'.2, Bool.or_false]
end

mutual
/-- The code of an action follows the references that are followed on every way through what is not dead
in it. -/
theorem pursues_code {field : String} (n : Nat) :
    ∀ a : Action, field ∈ a.live.followed → Pursues field (a.code n)
  | .sequence actions, h => pursues_codeOfAll n actions h
  | .assign root path value, h => (Term.pursues_codeAlong n root.read value path h).append _
  | .ifThen condition _, h => (((condition.pursues_code (n + 1) h).append _).append _).append _
  | .ifElse condition _ _, h =>
    (((((condition.pursues_code (n + 1) h).append _).append _).append _).append _).append _
  | .loop condition _, h =>
    (((Pursues.after (.label _) (condition.pursues_code (n + 2) h)).append _).append _).append _
  | .leave none, h => nomatch h
  | .leave (some value), h | .abort value, h | .evaluate value, h => (value.pursues_code n h).append _

theorem pursues_codeOfAll {field : String} (n : Nat) : ∀ actions : List Action,
    field ∈ followedByAll (liveOf actions) → Pursues field (codeOfAll n actions)
  | [], h => nomatch h
  | a :: rest, h => by
    rw [liveOf, followedByAll, List.mem_append] at h
    rcases h with h | h
    · exact (pursues_code n a h).append _
    -- the rest is followed only if the first action does not leave the function
    · cases may : a.live.mayLeave with
      | true =>
        rw [may] at h
        cases h
      | false =>
        cases always : a.ends with
        | true =>
          rw [may, always] at h
          cases h
        | false =>
          rw [may, always] at h
          exact (pursues_codeOfAll _ rest h).after (a.confined_code n (leaves_eq_false a always may))
end

end Action

/-! ## Policies -/

namespace Policy

mutual
theorem stays_code (n : Nat) : ∀ p : Policy, Stays (p.code n)
  | .anyone | .denied | .field _ | .key _ | .delegate _ _ _ => by
    simp [code, truth, Instruction.departs]
  | .anyOf policies => by
    simp [code, truth, Instruction.departs, stays_codeOfAll (n + 2) (labelName n) policies]

theorem stays_codeOfAll (n : Nat) (satisfied : String) :
    ∀ policies : List Policy, Stays (codeOfAll n satisfied policies)
  | [] => stays_nil
  | p :: rest => by
    simp [codeOfAll, Instruction.departs, stays_code n p, stays_codeOfAll _ satisfied rest]
end

theorem confined_code (n : Nat) (p : Policy) : Confined (p.code n) :=
  (p.stays_code n).confined (p.ordinary_code n (List.Subset.refl _))

/-- A policy that rests on one reference tests it first. -/
theorem passes_delegate (n : Nat) (holder contract delegateField : String) :
    Passes [.op (.loadThis holder), .op .dup, .op .truthy] ((delegate holder contract delegateField).code n) :=
  .after (a := [.op (.loadContext "publicKey")]) (.op rfl rfl) (.here _ _)

end Policy

end Covenant
