import Covenant.Code.StackWalk
import Mathlib.Data.List.Basic
import Mathlib.Order.WellFounded
/-!
Heights of the stack at the places of linked code, and the walks that look for them:

* `Level`: every place with a height holds an instruction that takes no more values than that, and
  the places it leads to have the height that it leaves;
* `Walk.Step`, `Walk.Ends`: walks that take the pending places in any order;
* `Walk.step_wellFounded`: each of them ends;
* `Walk.ends_walk`: the walk of the check is one of them, and its fuel is never used up;
* `level_of_checkStack`: code that passes the check has such heights, the start having height 0;
* `checkStack_of_level`: code with such heights passes the check.
-/

namespace Covenant.LinkedCode

/-- Heights that agree with what each instruction takes and puts. -/
def Level (code : LinkedCode) (heights : Nat → Option Nat) : Prop :=
  ∀ place h, heights place = some h → ∃ i, code[place]? = some i ∧ i.pops ≤ h ∧
    ∀ next ∈ i.successors place, heights next = some (h - i.pops + i.pushes)

theorem successors_length_le (place : Nat) (i : Instruction Nat) :
    (i.successors place).length ≤ 2 := by
  unfold Instruction.successors
  split
  · exact Nat.zero_le 2
  · split <;> simp

/-! ## What the walk has found -/

/-- The height that a walk has found for a place. -/
def found (depths : List (Option Nat)) (place : Nat) : Option Nat := depths.getD place none

theorem found_set {depths : List (Option Nat)} {place h : Nat} (hp : place < depths.length)
    (q : Nat) : found (depths.set place (some h)) q =
      if q = place then some h else found depths q := by
  unfold found
  rw [List.getD_eq_getElem?_getD, List.getD_eq_getElem?_getD, List.getElem?_set]
  by_cases hq : place = q
  · subst hq
    simp [hp]
  · rw [if_neg hq, if_neg (Ne.symm hq)]

/-- The invariant of a walk: what it has been through is as it should be, but for what is
pending. -/
def Explored (code : LinkedCode) (depths : List (Option Nat)) (pending : List (Nat × Nat)) :
    Prop :=
  ∀ place h, found depths place = some h → ∃ i, code[place]? = some i ∧ i.pops ≤ h ∧
    ∀ next ∈ i.successors place, found depths next = some (h - i.pops + i.pushes) ∨
      (next, h - i.pops + i.pushes) ∈ pending

/-- The order of the pending places is of no account. -/
theorem Explored.perm {code : LinkedCode} {depths : List (Option Nat)}
    {pending pending' : List (Nat × Nat)} (e : Explored code depths pending)
    (same : pending.Perm pending') : Explored code depths pending' := by
  intro q k hq
  obtain ⟨i, hi, enough, next⟩ := e q k hq
  exact ⟨i, hi, enough, fun q' hq' => (next q' hq').imp_right same.mem_iff.mp⟩

/-- A pending place that has been walked through at its height is done with. -/
theorem Explored.seen {code : LinkedCode} {depths : List (Option Nat)} {place h : Nat}
    {pending : List (Nat × Nat)} (e : Explored code depths ((place, h) :: pending))
    (hs : found depths place = some h) : Explored code depths pending := by
  intro q k hq
  obtain ⟨i, hi, enough, next⟩ := e q k hq
  refine ⟨i, hi, enough, fun q' hq' => ?_⟩
  rcases next q' hq' with hf | hm
  · exact .inl hf
  · rcases List.mem_cons.mp hm with he | hm
    · obtain ⟨rfl, rfl⟩ := Prod.mk.inj he
      exact .inl hs
    · exact .inr hm

/-- A new place is walked through and the places that it leads to become pending. -/
theorem Explored.visit {code : LinkedCode} {depths : List (Option Nat)} {place h : Nat}
    {pending : List (Nat × Nat)} {i : Instruction Nat}
    (e : Explored code depths ((place, h) :: pending)) (hp : place < depths.length)
    (hi : code[place]? = some i) (new : found depths place = none) (enough : i.pops ≤ h) :
    Explored code (depths.set place (some h))
      ((i.successors place).map (fun next => (next, h - i.pops + i.pushes)) ++ pending) := by
  intro q k hq
  rw [found_set hp] at hq
  split at hq
  · subst q
    cases hq
    refine ⟨i, hi, enough, fun q' hq' => .inr ?_⟩
    exact List.mem_append_left _ (List.mem_map.mpr ⟨q', hq', rfl⟩)
  · obtain ⟨j, hj, enough', next⟩ := e q k hq
    refine ⟨j, hj, enough', fun q' hq' => ?_⟩
    rw [found_set hp]
    rcases next q' hq' with hf | hm
    · refine .inl ?_
      rw [if_neg, hf]
      rintro rfl
      rw [new] at hf
      cases hf
    · rcases List.mem_cons.mp hm with he | hm
      · obtain ⟨rfl, hk⟩ := Prod.mk.inj he
        exact .inl (by rw [if_pos rfl, hk])
      · exact .inr (List.mem_append_right _ hm)

/-! ## Walks -/

/-- How far a walk is: the heights of the places that it has been through, and the pending places with
theirs. -/
structure Walk (code : LinkedCode) where
  depths : List (Option Nat)
  pending : List (Nat × Nat)
  size : depths.length = code.size

namespace Walk

variable {code : LinkedCode} {heights : Nat → Option Nat} {w w' : Walk code} {place depth : Nat}
  {rest : List (Nat × Nat)} {i : Instruction Nat} {r : Except LinkFault Unit}

/-- The walk that has been nowhere, with nothing on the stack at the start of the code. -/
def start (code : LinkedCode) : Walk code :=
  ⟨List.replicate code.size none, [(0, 0)], List.length_replicate⟩

/-- The walk after a place that it has not been through, `rest` being pending besides. -/
def visit (w : Walk code) (place depth : Nat) (i : Instruction Nat) (rest : List (Nat × Nat)) :
    Walk code where
  depths := w.depths.set place (some depth)
  pending := (i.successors place).map (fun next => (next, depth - i.pops + i.pushes)) ++ rest
  size := by rw [List.length_set, w.size]

inductive Step : Walk code → Walk code → Prop
  | seen {w : Walk code} {place depth : Nat} {rest : List (Nat × Nat)}
      (taken : w.pending.Perm ((place, depth) :: rest)) (same : found w.depths place = some depth) :
      Step w ⟨w.depths, rest, w.size⟩
  | visit {w : Walk code} {place depth : Nat} {rest : List (Nat × Nat)} {i : Instruction Nat}
      (taken : w.pending.Perm ((place, depth) :: rest)) (here : code[place]? = some i)
      (new : found w.depths place = none) (enough : i.pops ≤ depth) :
      Step w (w.visit place depth i rest)

inductive Refuses (w : Walk code) (place depth : Nat) : LinkFault → Prop
  | outside (none : code[place]? = none) : Refuses w place depth .pastEnd
  | uneven {seen : Nat} (old : found w.depths place = some seen) (other : seen ≠ depth) :
      Refuses w place depth (.depths place seen depth)
  | underflow {i : Instruction Nat} (here : code[place]? = some i)
      (new : found w.depths place = none) (few : depth < i.pops) :
      Refuses w place depth (.underflow place i.name)

inductive Ends : Walk code → Except LinkFault Unit → Prop
  | done {w : Walk code} (nothing : w.pending = []) : Ends w (.ok ())
  | refused {w : Walk code} {place depth : Nat} {rest : List (Nat × Nat)} {fault : LinkFault}
      (taken : w.pending.Perm ((place, depth) :: rest)) (why : w.Refuses place depth fault) :
      Ends w (.error fault)
  | step {w w' : Walk code} {r : Except LinkFault Unit} (first : Step w w') (later : Ends w' r) :
      Ends w r

theorem inside (w : Walk code) (here : code[place]? = some i) : place < w.depths.length := by
  rw [w.size]
  exact (Array.getElem?_eq_some_iff.mp here).1

/-! ### Walks end -/

def unvisited (depths : List (Option Nat)) : Nat := depths.count none

theorem unvisited_set {depths : List (Option Nat)} {place : Nat} (h : Nat)
    (hp : place < depths.length) (new : found depths place = none) :
    unvisited (depths.set place (some h)) + 1 = unvisited depths := by
  have hn : depths[place] = none := by
    rw [found, List.getD_eq_getElem?_getD, List.getElem?_eq_getElem hp] at new
    exact new
  have pos : 0 < depths.count none := List.count_pos_iff.mpr (hn ▸ List.getElem_mem hp)
  unfold unvisited
  rw [List.count_set hp]
  simp only [hn, BEq.rfl, if_true]
  simp
  omega

/-- Every place that is new makes at most two others pending. -/
def left (w : Walk code) : Nat := 2 * unvisited w.depths + w.pending.length

theorem left_visit (here : code[place]? = some i) (new : found w.depths place = none) :
    (w.visit place depth i rest).left ≤ 2 * unvisited w.depths + rest.length := by
  have fewer := unvisited_set depth (w.inside here) new
  have two := successors_length_le place i
  simp only [left, visit, List.length_append, List.length_map]
  omega

theorem Step.left_lt (h : Step w w') : w'.left < w.left := by
  cases h with
  | seen taken same =>
    have size := taken.length_eq
    rw [List.length_cons] at size
    simp only [left]
    omega
  | visit taken here new enough =>
    have size := taken.length_eq
    rw [List.length_cons] at size
    apply Nat.lt_of_le_of_lt (left_visit here new)
    simp only [left]
    omega

/-- No walk goes on for ever. -/
theorem step_wellFounded : WellFounded fun after before : Walk code => Step before after :=
  (InvImage.wf left wellFounded_lt).mono fun _ _ h => h.left_lt

/-- With fuel for all that is left the check takes one of the walks to its end. -/
theorem ends_walk (fuel : Nat) (w : Walk code) (enough : w.left ≤ fuel) :
    w.Ends (code.walk fuel w.depths w.pending) := by
  induction fuel generalizing w with
  | zero =>
    have nothing : w.pending = [] := by
      apply List.length_eq_zero_iff.mp
      unfold left at enough
      omega
    rw [nothing, walk]
    exact .done nothing
  | succ fuel ih =>
    obtain ⟨depths, pending, size⟩ := w
    match pending with
    | [] =>
      rw [walk]
      exact .done rfl
    | (place, depth) :: rest =>
      have less : 2 * unvisited depths + rest.length ≤ fuel := by
        simp only [left, List.length_cons] at enough
        omega
      rw [walk]
      cases here : code[place]? with
      | none => exact .refused (.refl _) (.outside here)
      | some i =>
        dsimp only
        split
        next seen old =>
          split
          next same => exact .step (.seen (.refl _) (same ▸ old)) (ih ⟨depths, rest, size⟩ less)
          next other => exact .refused (.refl _) (.uneven old other)
        next new =>
          split
          next few => exact .refused (.refl _) (.underflow here new few)
          next enough' =>
            let w : Walk code := ⟨depths, (place, depth) :: rest, size⟩
            have unknown : found w.depths place = none := new
            have visited : (w.visit place depth i rest).left ≤ fuel :=
              (left_visit here unknown).trans less
            exact .step (.visit (.refl _) here new (Nat.le_of_not_lt enough')) (ih _ visited)

/-! ### What walks find -/

/-- One more place keeps the invariant. -/
theorem Step.explored (h : Step w w') (e : Explored code w.depths w.pending) :
    Explored code w'.depths w'.pending := by
  cases h with
  | seen taken same => exact (e.perm taken).seen same
  | visit taken here new enough => exact (e.perm taken).visit (w.inside here) here new enough

structure Agrees (w : Walk code) (heights : Nat → Option Nat) : Prop where
  old : ∀ q k, found w.depths q = some k → heights q = some k
  now : ∀ q k, (q, k) ∈ w.pending → heights q = some k

/-- Heights that agree with a walk after a step agreed with it before. -/
theorem Step.agrees_before (h : Step w w') (a : w'.Agrees heights) : w.Agrees heights := by
  cases h with
  | @seen place depth _ taken same =>
    refine ⟨a.old, fun q k hq => ?_⟩
    rcases List.mem_cons.mp (taken.mem_iff.mp hq) with he | hq
    · obtain ⟨rfl, rfl⟩ := Prod.mk.inj he
      exact a.old _ _ same
    · exact a.now q k hq
  | @visit place depth _ i taken here new enough =>
    have set := found_set (h := depth) (w.inside here)
    refine ⟨fun q k hq => a.old q k ?_, fun q k hq => ?_⟩
    · refine (set q).trans ?_
      rw [if_neg, hq]
      rintro rfl
      rw [new] at hq
      cases hq
    · rcases List.mem_cons.mp (taken.mem_iff.mp hq) with he | hq
      · obtain ⟨rfl, rfl⟩ := Prod.mk.inj he
        exact a.old _ _ ((set _).trans (if_pos rfl))
      · exact a.now q k (List.mem_append_right _ hq)

/-- Heights that agree with a walk go on doing so. -/
theorem Step.agrees_after (level : Level code heights) (h : Step w w') (a : w.Agrees heights) :
    w'.Agrees heights := by
  cases h with
  | seen taken same => exact ⟨a.old, fun q k hq => a.now q k (taken.mem_iff.mpr (List.mem_cons_of_mem _ hq))⟩
  | @visit place depth _ i taken here new enough =>
    have hd : heights place = some depth := a.now _ _ (taken.mem_iff.mpr List.mem_cons_self)
    obtain ⟨j, hj, -, next⟩ := level place depth hd
    obtain rfl : j = i := Option.some.inj (hj.symm.trans here)
    refine ⟨fun q k hq => ?_, fun q k hq => ?_⟩
    · replace hq := (found_set (w.inside here) q).symm.trans hq
      split at hq
      · subst q
        cases hq
        exact hd
      · exact a.old q k hq
    · rcases List.mem_append.mp hq with hq | hq
      · obtain ⟨q', hq', he⟩ := List.mem_map.mp hq
        obtain ⟨rfl, rfl⟩ := Prod.mk.inj he
        exact next q' hq'
      · exact a.now q k (taken.mem_iff.mpr (List.mem_cons_of_mem _ hq))

/-- Nothing is refused that agrees with heights. -/
theorem Refuses.not_agrees {fault : LinkFault} (h : w.Refuses place depth fault)
    (level : Level code heights) (a : w.Agrees heights) : (place, depth) ∉ w.pending := by
  intro hq
  have hd := a.now _ _ hq
  obtain ⟨i, hi, enough, -⟩ := level place depth hd
  cases h with
  | outside none =>
    rw [none] at hi
    cases hi
  | uneven old other => exact other (Option.some.inj ((a.old _ _ old).symm.trans hd))
  | underflow here _ few =>
    obtain rfl := Option.some.inj (hi.symm.trans here)
    omega

/-- A walk that ends well has found heights for all that it was given. -/
theorem Ends.exists_level (h : w.Ends (.ok ())) (e : Explored code w.depths w.pending) :
    ∃ heights, Level code heights ∧ w.Agrees heights := by
  generalize ending : Except.ok () = r at h
  induction h with
  | @done w nothing =>
    rw [nothing] at e
    refine ⟨found w.depths, fun q k hq => by simpa using e q k hq, fun _ _ hq => hq, fun q k hq => ?_⟩
    rw [nothing] at hq
    cases hq
  | refused => cases ending
  | step first _ ih =>
    obtain ⟨heights, level, a⟩ := ih (first.explored e) ending
    exact ⟨heights, level, first.agrees_before a⟩

/-- A walk ends well when everything it meets agrees with heights. -/
theorem Ends.eq_ok (h : w.Ends r) (level : Level code heights) (a : w.Agrees heights) : r = .ok () := by
  induction h with
  | done => rfl
  | refused taken why => exact absurd (taken.mem_iff.mpr List.mem_cons_self) (why.not_agrees level a)
  | step first _ ih => exact ih (first.agrees_after level a)

theorem not_found_start (code : LinkedCode) (q : Nat) : found (start code).depths q = none := by
  simp only [found, start, List.getD_eq_getElem?_getD, List.getElem?_replicate]
  split <;> rfl

theorem agrees_start_iff : (start code).Agrees heights ↔ heights 0 = some 0 := by
  constructor
  · intro a
    exact a.now 0 0 (List.mem_singleton.mpr rfl)
  · intro first
    refine ⟨fun q k hq => ?_, fun q k hq => ?_⟩
    · rw [not_found_start] at hq
      cases hq
    · obtain ⟨rfl, rfl⟩ := Prod.mk.inj (List.mem_singleton.mp hq)
      exact first

/-- A walk from the start ends well just when the code has heights. -/
theorem Ends.eq_ok_iff (h : (start code).Ends r) :
    r = .ok () ↔ ∃ heights, Level code heights ∧ heights 0 = some 0 := by
  constructor
  · rintro rfl
    have e : Explored code (start code).depths (start code).pending := by
      intro q k hq
      rw [not_found_start] at hq
      cases hq
    obtain ⟨heights, level, a⟩ := h.exists_level e
    exact ⟨heights, level, agrees_start_iff.mp a⟩
  · rintro ⟨heights, level, first⟩
    exact h.eq_ok level (agrees_start_iff.mpr first)

/-- The check takes a walk from the start to its end. -/
theorem ends_checkStack (code : LinkedCode) : (start code).Ends code.checkStack := by
  apply ends_walk
  simp [left, start, unvisited]

end Walk

/-! ## The check -/

/-- Code that passes the check has heights. -/
theorem level_of_checkStack {code : LinkedCode} (h : code.checkStack = .ok ()) :
    ∃ heights, Level code heights ∧ heights 0 = some 0 :=
  (Walk.ends_checkStack code).eq_ok_iff.mp h

/-- Code that has heights passes the check. -/
theorem checkStack_of_level {code : LinkedCode} {heights : Nat → Option Nat}
    (level : Level code heights) (start : heights 0 = some 0) : code.checkStack = .ok () :=
  (Walk.ends_checkStack code).eq_ok_iff.mpr ⟨heights, level, start⟩

end Covenant.LinkedCode
