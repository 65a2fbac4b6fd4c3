import Covenant.Proofs.Code.Linking
import Covenant.Proofs.Compile.Jumps
import Covenant.Proofs.Key.Codec
import Covenant.Proofs.Machine.Levels
/-!
The check before the body of a function.

* `Policy.Decides`: whether a caller satisfies a policy, as far as this can be looked up;
* `Policy.Decides.answers`: the code of a policy puts this truth on the stack;
* `CheckedFunction.guard_passes`, `CheckedFunction.guard_refuses`: the guard comes to the body with all as
  it was, or it refuses the caller;
* `LinkedCode.StaysFrom`: code that a run does not leave once it has come there, and that refuses no one.
-/

namespace Covenant

open Code Machine

/-- Whether the caller satisfies a policy, with what is looked up on the way. -/
inductive Policy.Decides (s : Surroundings) (receiver : Datum) : Policy → Bool → Prop
  | anyone : Decides s receiver .anyone true
  | denied : Decides s receiver .denied false
  | field {name : String} {d : Datum} (held : receiver.member name = .ok d) :
      Decides s receiver (.field name) (keyMatches s.caller d)
  | unset {name contract delegateField : String} {d : Datum} (held : receiver.member name = .ok d)
      (empty : d.holds = false) : Decides s receiver (.delegate name contract delegateField) false
  | delegate {name contract delegateField : String} {d record key : Datum}
      (held : receiver.member name = .ok d) (set : d.holds = true)
      (found : s.recordOf contract d = .ok record) (marked : record.member delegateField = .ok key) :
      Decides s receiver (.delegate name contract delegateField) (keyMatches s.caller key)
  | key {k : Key} (point : k.IsPoint) : Decides s receiver (.key k) (keyMatches s.caller (.key k))
  | anyOf {policies : List Policy} {allows : Policy → Bool}
      (each : ∀ p ∈ policies, Decides s receiver p (allows p)) :
      Decides s receiver (.anyOf policies) (policies.any allows)

/-! ## Steps -/

namespace Linkage

variable {l : Linkage} {s : Surroundings} {st lo : List Datum} {d e r : Datum} {place n c : Nat}

/-- The instruction in linked code. -/
theorem HasAt.linked {i : Instruction String} {j : Instruction Nat} (here : l.HasAt place i)
    (linked : linkInstruction l.abi l.header l.labels i = .ok j) : l.code[place]? = some j := by
  obtain ⟨j, linked', there⟩ := here
  cases linked'.symm.trans linked
  exact there

theorem HasAt.loadThis {name : String} (here : l.HasAt place (.loadThis name)) :
    l.code[place]? = some (.loadThis name) := by
  obtain ⟨j, linked, there⟩ := here
  obtain ⟨-, -, hj⟩ := bind_eq_ok.mp linked
  cases hj
  exact there

theorem HasAt.deref {contract : String} (here : l.HasAt place (.deref contract)) :
    l.code[place]? = some (.deref contract) := by
  obtain ⟨j, linked, there⟩ := here
  rw [linkInstruction] at linked
  split at linked <;> cases linked
  exact there

theorem HasAt.step {i : Instruction String} {j : Instruction Nat} (here : l.HasAt place i)
    (linked : linkInstruction l.abi l.header l.labels i = .ok j) :
    Machine.step l.code s ⟨st, lo, r, place, n, c⟩ =
      some ((execute s j).run ⟨st, lo, r, place + 1, n + 1, c⟩) :=
  step_of_instruction (m := ⟨st, lo, r, place, n, c⟩) (here.linked linked)

theorem step_truth {b : Bool} (here : l.HasAt place (.push (.primitive .boolean) (.boolean b))) :
    step l.code s ⟨st, lo, r, place, n, c⟩ =
      some (.ok none, ⟨.boolean b :: st, lo, r, place + 1, n + 1, c⟩) := here.step rfl

theorem step_key {k : Key} (point : k.IsPoint) (here : l.HasAt place (.push .key (.text k.toHex))) :
    step l.code s ⟨st, lo, r, place, n, c⟩ =
      some (.ok none, ⟨.key k :: st, lo, r, place + 1, n + 1, c⟩) :=
  here.step (j := .push .key (.key k))
    (by simp only [linkInstruction, literalValue, Key.ofHex_toHex point]; rfl)

theorem step_caller (here : l.HasAt place (.loadContext "publicKey")) :
    step l.code s ⟨st, lo, r, place, n, c⟩ =
      some (.ok none, ⟨s.caller :: st, lo, r, place + 1, n + 1, c⟩) := here.step rfl

theorem step_loadThis {name : String} (here : l.HasAt place (.loadThis name))
    (held : r.member name = .ok d) : step l.code s ⟨st, lo, r, place, n, c⟩ =
      some (.ok none, ⟨d :: st, lo, r, place + 1, n + 1, c⟩) := by
  rw [step_of_instruction (m := ⟨st, lo, r, place, n, c⟩) here.loadThis, execute_loadThis, held]
  rfl

theorem step_keyMatch (here : l.HasAt place .keyMatch) :
    step l.code s ⟨e :: d :: st, lo, r, place, n, c⟩ =
      some (.ok none, ⟨.boolean (keyMatches d e) :: st, lo, r, place + 1, n + 1, c⟩) := here.step rfl

theorem step_dup (here : l.HasAt place .dup) : step l.code s ⟨d :: st, lo, r, place, n, c⟩ =
    some (.ok none, ⟨d :: d :: st, lo, r, place + 1, n + 1, c⟩) := here.step rfl

theorem step_drop (here : l.HasAt place .drop) : step l.code s ⟨d :: st, lo, r, place, n, c⟩ =
    some (.ok none, ⟨st, lo, r, place + 1, n + 1, c⟩) := here.step rfl

theorem step_truthy (here : l.HasAt place .truthy) : step l.code s ⟨d :: st, lo, r, place, n, c⟩ =
    some (.ok none, ⟨.boolean d.holds :: st, lo, r, place + 1, n + 1, c⟩) := here.step rfl

theorem step_deref {contract : String} (here : l.HasAt place (.deref contract))
    (found : s.recordOf contract d = .ok e) : step l.code s ⟨d :: st, lo, r, place, n, c⟩ =
      some (.ok none, ⟨e :: st, lo, r, place + 1, n + 1, c⟩) := by
  rw [step_of_instruction (m := ⟨d :: st, lo, r, place, n, c⟩) here.deref, execute_deref, found]
  rfl

theorem step_getField {name : String} (here : l.HasAt place (.getField name))
    (held : d.member name = .ok e) : step l.code s ⟨d :: st, lo, r, place, n, c⟩ =
      some (.ok none, ⟨e :: st, lo, r, place + 1, n + 1, c⟩) := by
  rw [here.step rfl, execute_getField, held]
  rfl

theorem step_leaveValue (here : l.HasAt place .leaveValue) :
    step l.code s ⟨d :: st, lo, r, place, n, c⟩ =
      some (.ok (some (.value d)), ⟨st, lo, r, place + 1, n + 1, c⟩) := here.step rfl

theorem step_jump {name : String} {target : Nat} (here : l.HasAt place (.jump name))
    (known : l.labels.lookup name = some target) : step l.code s ⟨st, lo, r, place, n, c⟩ =
      some (.ok none, ⟨st, lo, r, target, n + 1, c⟩) :=
  here.step (j := .jump target) (by rw [linkInstruction, linkTarget_eq_ok.mpr known]; rfl)

theorem step_jumpIfFalse {name : String} {target : Nat} (here : l.HasAt place (.jumpIfFalse name))
    (known : l.labels.lookup name = some target) : step l.code s ⟨d :: st, lo, r, place, n, c⟩ =
      some (.ok none, ⟨st, lo, r, if d.isTrue then place + 1 else target, n + 1, c⟩) := by
  rw [here.step (j := .jumpIfFalse target)
    (by rw [linkInstruction, linkTarget_eq_ok.mpr known]; rfl), execute_jumpIfFalse]

theorem step_jumpIfTrue {name : String} {target : Nat} (here : l.HasAt place (.jumpIfTrue name))
    (known : l.labels.lookup name = some target) : step l.code s ⟨d :: st, lo, r, place, n, c⟩ =
      some (.ok none, ⟨st, lo, r, if d.isTrue then target else place + 1, n + 1, c⟩) := by
  rw [here.step (j := .jumpIfTrue target)
    (by rw [linkInstruction, linkTarget_eq_ok.mpr known]; rfl), execute_jumpIfTrue]

end Linkage

/-! ## Policies -/

/-- Wherever it stands, code puts a truth on the stack and goes on after itself with all else as it
was. -/
def Code.Answers (s : Surroundings) (receiver : Datum) (code : Code) (b : Bool) : Prop :=
  ∀ (l : Linkage) (st lo : List Datum) (place n c : Nat), l.Holds place code →
    ∃ k, Walks l.code s (place + size code) ⟨st, lo, receiver, place, n, c⟩ k
      ⟨.boolean b :: st, lo, receiver, place + size code, n + k, c⟩

namespace Policy

variable {s : Surroundings} {receiver : Datum}

/-- Of several policies the first one that is satisfied leads to the label. -/
theorem walks_codeOfAll {policies : List Policy} {allows : Policy → Bool}
    (each : ∀ p ∈ policies, ∀ n, Answers s receiver (p.code n) (allows p)) {l : Linkage}
    {satisfied : String} {target : Nat} (known : l.labels.lookup satisfied = some target)
    (first : Nat) (st lo : List Datum) (place n c : Nat)
    (holds : l.Holds place (codeOfAll first satisfied policies)) :
    ∃ k, Walks l.code s (place + size (codeOfAll first satisfied policies))
      ⟨st, lo, receiver, place, n, c⟩ k
      ⟨st, lo, receiver, if policies.any allows then target
        else place + size (codeOfAll first satisfied policies), n + k, c⟩ := by
  induction policies generalizing first place n with
  | nil => exact ⟨0, .refl _⟩
  | cons p rest ih =>
    rw [List.forall_mem_cons] at each
    rw [codeOfAll] at holds ⊢
    obtain ⟨holds, others⟩ := Linkage.holds_append.mp holds
    obtain ⟨own, leap, -⟩ := Linkage.holds_append.mp holds
    obtain ⟨k, answered⟩ := each.1 first l st lo place n c own
    have total : place + size (p.code first ++ [.op (.jumpIfTrue satisfied)] ++
        codeOfAll (first + p.labels) satisfied rest) = place + size (p.code first) + 1 +
          size (codeOfAll (first + p.labels) satisfied rest) := by
      simp only [size_append, size_op, size_nil]
      omega
    simp only [size_append, size_op, size_nil, Nat.zero_add, ← Nat.add_assoc] at others
    rw [total]
    have within : place + size (p.code first) ≤ place + size (p.code first) + 1 +
        size (codeOfAll (first + p.labels) satisfied rest) := by omega
    have jumped := (answered.mono within).trans
      (.one (by simp only; omega) (Linkage.step_jumpIfTrue leap known))
    rw [List.any_cons]
    cases h : allows p with
    | true =>
      rw [h] at jumped
      exact ⟨_, jumped⟩
    | false =>
      rw [h] at jumped
      obtain ⟨k', walked⟩ := ih each.2 _ _ _ others
      rw [Bool.false_or]
      exact ⟨k + 1 + k', by rw [← Nat.add_assoc, ← Nat.add_assoc]; exact jumped.trans walked⟩

/-- The code of a delegate's policy first parts the set references from the others. -/
theorem walks_test {name contract delegateField : String} {d : Datum}
    (held : receiver.member name = .ok d) {l : Linkage} (first : Nat) (st lo : List Datum)
    {place : Nat} (n c : Nat)
    (holds : l.Holds place ((Policy.delegate name contract delegateField).code first)) :
    Walks l.code s (place + 12) ⟨st, lo, receiver, place, n, c⟩ 5
      ⟨d :: s.caller :: st, lo, receiver, if d.holds then place + 5 else place + 9, n + 5, c⟩ := by
  obtain ⟨caller, load, dup, test, leap, -, -, -, -, label, -⟩ := holds
  exact .next (by simp) (Linkage.step_caller caller)
    (.next (by simp) (Linkage.step_loadThis load held) (.next (by simp) (Linkage.step_dup dup)
    (.next (by simp) (Linkage.step_truthy test)
    (.one (by simp) (Linkage.step_jumpIfFalse leap label)))))

/-- The code of a policy puts on the stack whether the caller satisfies it. -/
theorem Decides.answers {p : Policy} {b : Bool} (h : p.Decides s receiver b) :
    ∀ n, Answers s receiver (p.code n) b := by
  induction h with
  | anyone | denied =>
    intro first l st lo place n c holds
    exact ⟨1, .one (Nat.lt_succ_self place) (Linkage.step_truth holds.1)⟩
  | field held =>
    rintro first l st lo place n c ⟨caller, load, test, -⟩
    exact ⟨3, .next (by simp [code]) (Linkage.step_caller caller)
      (.next (by simp [code]) (Linkage.step_loadThis load held)
        (.one (by simp [code]) (Linkage.step_keyMatch test)))⟩
  | key point =>
    rintro first l st lo place n c ⟨caller, load, test, -⟩
    exact ⟨3, .next (by simp [code]) (Linkage.step_caller caller)
      (.next (by simp [code]) (Linkage.step_key point load)
        (.one (by simp [code]) (Linkage.step_keyMatch test)))⟩
  | unset held empty =>
    intro first l st lo place n c holds
    have tested := walks_test (s := s) held first st lo n c holds
    rw [if_neg (Bool.eq_false_iff.mp empty)] at tested
    obtain ⟨-, -, -, -, -, -, -, -, -, -, drop, drop', truth, -⟩ := holds
    exact ⟨5 + 3, tested.trans (.next (by simp) (Linkage.step_drop drop)
      (.next (by simp) (Linkage.step_drop drop') (.one (by simp) (Linkage.step_truth truth))))⟩
  | delegate held set found marked =>
    intro first l st lo place n c holds
    have tested := walks_test (s := s) held first st lo n c holds
    rw [if_pos set] at tested
    obtain ⟨-, -, -, -, -, deref, load, test, leap, -, -, -, -, label, -⟩ := holds
    exact ⟨5 + 4, tested.trans (.next (by simp) (Linkage.step_deref deref found)
      (.next (by simp) (Linkage.step_getField load marked)
      (.next (by simp) (Linkage.step_keyMatch test) (.one (by simp) (Linkage.step_jump leap label)))))⟩
  | @anyOf policies allows _ ih =>
    intro first l st lo place n c holds
    rw [code] at holds ⊢
    obtain ⟨own, no, leap, label, yes, label', -⟩ := Linkage.holds_append.mp holds
    obtain ⟨k, walked⟩ := walks_codeOfAll ih label (first + 2) st lo place n c own
    have total : place + size (codeOfAll (first + 2) (labelName first) policies ++
        [truth false, .op (.jump (labelName (first + 1))), .label (labelName first), truth true,
          .label (labelName (first + 1))]) =
        place + size (codeOfAll (first + 2) (labelName first) policies) + 3 := by
      rw [size_append]
      rfl
    rw [total]
    have within := walked.mono (Nat.le_add_right _ 3)
    cases h : policies.any allows with
    | true =>
      rw [h, if_pos rfl] at within
      exact ⟨k + 1, within.trans (.one (by simp) (Linkage.step_truth yes))⟩
    | false =>
      rw [h, if_neg Bool.false_ne_true] at within
      exact ⟨k + 2, within.trans (.next (by simp) (Linkage.step_truth no)
        (.one (by simp) (Linkage.step_jump leap label')))⟩

end Policy

/-! ## The guard -/

namespace CheckedFunction

variable {f : CheckedFunction} {s : Surroundings} {receiver : Datum} {l : Linkage} {place : Nat}

theorem guard_cases (f : CheckedFunction) :
    (f.guard = [] ∧ (f.isConstructor || f.policy.isAnyone) = true) ∨ f.guard = f.policy.code 1 ++
      [.op (.jumpIfTrue (labelName 0)), .op .abortUnauthorized, .label (labelName 0)] := by
  unfold guard
  split
  next none => exact .inl ⟨rfl, none⟩
  next => exact .inr rfl

/-- For a caller who satisfies the policy the guard leads on to the body. -/
theorem guard_passes (decided : f.policy.Decides s receiver true) (holds : l.Holds place f.guard)
    (st lo : List Datum) (n c : Nat) : ∃ k, Walks l.code s (place + size f.guard)
      ⟨st, lo, receiver, place, n, c⟩ k ⟨st, lo, receiver, place + size f.guard, n + k, c⟩ := by
  rcases f.guard_cases with ⟨none, -⟩ | some
  · rw [none]
    exact ⟨0, .refl _⟩
  · rw [some] at holds ⊢
    obtain ⟨own, leap, -, label, -⟩ := Linkage.holds_append.mp holds
    obtain ⟨k, answered⟩ := decided.answers 1 l st lo place n c own
    rw [size_append, ← Nat.add_assoc]
    exact ⟨k + 1, (answered.mono (Nat.le_add_right _ _)).trans
      (.one (by simp) (Linkage.step_jumpIfTrue leap label))⟩

/-- A caller who does not satisfy it is refused inside the guard. -/
theorem guard_refuses (other : f.isConstructor = false)
    (decided : f.policy.Decides s receiver false) (holds : l.Holds place f.guard)
    (st lo : List Datum) (n c : Nat) : ∃ k m, Walks l.code s (place + size f.guard)
      ⟨st, lo, receiver, place, n, c⟩ k m ∧ m.place < place + size f.guard ∧
        Fails l.code s m .unauthorized := by
  rcases f.guard_cases with ⟨-, none⟩ | some
  · rw [other, Bool.false_or] at none
    cases h : f.policy with
    | anyone =>
      rw [h] at decided
      cases decided
    | _ =>
      rw [h] at none
      cases none
  · rw [some] at holds ⊢
    obtain ⟨own, leap, refusal, label, -⟩ := Linkage.holds_append.mp holds
    obtain ⟨k, answered⟩ := decided.answers 1 l st lo place n c own
    rw [size_append, ← Nat.add_assoc]
    exact ⟨k + 1, _, (answered.mono (Nat.le_add_right _ _)).trans
      (.one (by simp) (Linkage.step_jumpIfTrue leap label)), by simp [Datum.isTrue], _,
      refusal.step rfl⟩

theorem ordinary_body (f : CheckedFunction) :
    Ordinary (f.body.code f.guardLabels ++ f.ending).labelNames
      (f.body.code f.guardLabels ++ f.ending) := by
  have ending : f.ending.labelNames = [] := by
    unfold ending
    split <;> rfl
  rw [labelNames_append, ending, List.append_nil, ordinary_append]
  refine ⟨Action.ordinary_code _ _ (List.Subset.refl _), ?_⟩
  unfold CheckedFunction.ending
  split <;> simp [Instruction.isKnown, Instruction.refuses, Instruction.jumpTarget?]

end CheckedFunction

/-! ## The body -/

namespace LinkedCode

/-- Code that from a place on neither refuses the caller nor leads back before that place. -/
structure StaysFrom (code : LinkedCode) (start : Nat) : Prop where
  forward : ∀ {place i target}, start ≤ place → code[place]? = some i → i.jumpTarget? = some target →
    start ≤ target
  spares : ∀ {place i}, start ≤ place → code[place]? = some i → i.refuses = false

theorem staysFrom_of_holds {l : Linkage} {start : Nat} {code : Code} (holds : l.Holds start code)
    (whole : l.code.size = start + size code) (ordinary : Ordinary code.labelNames code) :
    l.code.StaysFrom start := by
  have comes : ∀ {place i}, start ≤ place → l.code[place]? = some i → ∃ i', .instruction i' ∈ code ∧
      SameShape l.labels i' i := by
    intro place i after here
    obtain ⟨k, rfl⟩ := Nat.exists_eq_add_of_le after
    have inside : k < size code := by
      have := (Array.getElem?_eq_some_iff.mp here).1
      omega
    obtain ⟨i', hi, j, linked, there⟩ := holds.exists_at inside
    obtain rfl : i = j := Option.some.inj (here.symm.trans there)
    exact ⟨i', hi, linkInstruction_shape linked⟩
  refine ⟨fun {place i target} after here jumps => ?_, fun {place i} after here => ?_⟩
  · obtain ⟨i', hi, shape⟩ := comes after here
    obtain ⟨name, jumps', known⟩ := shape.target target jumps
    obtain ⟨q, known', le⟩ := holds.exists_label ((ordinary i' hi).2.2 name jumps')
    obtain rfl : target = q := Option.some.inj (known.symm.trans known')
    exact le
  · obtain ⟨i', hi, shape⟩ := comes after here
    exact shape.refuses.trans (ordinary i' hi).2.1

namespace StaysFrom

variable {code : LinkedCode} {heights : Nat → Option Nat} {s : Surroundings} {m m' : Machine}
  {start n : Nat}

/-- A run that has come there stays there. -/
theorem reaches (stays : code.StaysFrom start) (level : Level code heights) (known : code.Known)
    (height : heights m.place = some m.stack.length) (after : start ≤ m.place)
    (h : Reaches code s m n m') : start ≤ m'.place ∧ heights m'.place = some m'.stack.length := by
  refine h.invariant (P := fun m => start ≤ m.place ∧ heights m.place = some m.stack.length)
    (fun {m m'} hm hs => ?_) ⟨after, height⟩
  obtain ⟨i, hi, moves⟩ := level.meets known hm.2 hs
  refine ⟨?_, level.height_of_moves hm.2 hi moves⟩
  rcases Instruction.mem_successors (moves.next m.place rfl) with ⟨-, next⟩ | jumps
  · exact next ▸ Nat.le_succ_of_le hm.1
  · exact stays.forward hm.1 hi jumps

/-- No step there refuses the caller. -/
theorem not_fails (stays : code.StaysFrom start) (level : Level code heights) (known : code.Known)
    (height : heights m.place = some m.stack.length) (after : start ≤ m.place) :
    ¬ Fails code s m .unauthorized := by
  rintro ⟨m', hs⟩
  obtain ⟨i, hi, meets⟩ := level.meets known height hs
  have spared := stays.spares after hi
  rcases meets with data | ⟨message, aborts⟩ | ⟨-, rfl⟩
  · cases data
  · cases aborts
  · cases spared

end StaysFrom

end LinkedCode

/-! ## Runs through the guard -/

namespace LinkedCode

/-- What is linked from known instructions is known. -/
theorem known_of_link {abi : Abi} {header : Header} {code : Code} {linked : LinkedCode}
    (known : ∀ i, .instruction i ∈ code → i.isKnown = true)
    (h : code.link abi header = .ok linked) : linked.Known := by
  obtain ⟨labels, l, -, hl, rfl, -⟩ := link_eq_ok h
  intro place j hj
  rw [List.getElem?_toArray] at hj
  obtain ⟨i, hi, made⟩ := exists_instruction_of_linkAll hl (List.mem_of_getElem? hj)
  exact (linkInstruction_shape made).isKnown.trans (known i hi)

end LinkedCode

namespace CheckedFunction

theorem code_eq (f : CheckedFunction) :
    f.code = f.guard ++ (f.body.code f.guardLabels ++ f.ending) :=
  List.append_assoc _ _ _

theorem isKnown_of_mem_code (f : CheckedFunction) {i : Instruction String}
    (h : .instruction i ∈ f.code) : i.isKnown = true := by
  rw [code_eq] at h
  rcases List.mem_append.mp h with guard | rest
  · rcases f.guard_cases with ⟨none, -⟩ | some
    · rw [none] at guard
      cases guard
    · rw [some] at guard
      rcases List.mem_append.mp guard with own | others
      · exact (Policy.ordinary_code 1 f.policy (List.Subset.refl _) i own).1
      · simp only [Line.op, List.mem_cons, Line.instruction.injEq, reduceCtorEq, List.not_mem_nil,
          or_false] at others
        rcases others with rfl | rfl <;> rfl
  · exact (f.ordinary_body i rest).1

/-- How a run goes through the guard of a function in a number of steps: with less of a budget it is cut
off; with enough it refuses the caller or comes to the body; until then it is in the guard. -/
structure Guarded (f : CheckedFunction) (code : LinkedCode) (s : Surroundings) (start : Machine)
    (steps : Nat) (b : Bool) : Prop where
  cutOff : ∀ (limit : Datum) {budget}, budget < steps →
    (runFrom code s limit budget start).outcome = .error (.stepLimit limit)
  refuses : ∀ (limit : Datum) {budget}, steps ≤ budget →
    ((runFrom code s limit budget start).outcome = .error .unauthorized ↔ b = false)
  passes : b = true →
    Reaches code s start steps { start with place := f.guard.size, steps := steps }
  before : ∀ {n m}, Reaches code s start n m → n < steps ∨ b = false → m.place < f.guard.size

theorem exists_guarded {f : CheckedFunction} {abi : Abi} {header : Header} {code : LinkedCode}
    (other : f.isConstructor = false) (linked : f.code.link abi header = .ok code)
    {s : Surroundings} {receiver : Datum} {b : Bool} (decided : f.policy.Decides s receiver b)
    (locals : List Datum) : ∃ k, f.Guarded code s (Machine.start receiver locals) k b := by
  obtain ⟨labels, holds, whole⟩ := exists_linkage_of_link linked
  rw [code_eq] at holds whole
  obtain ⟨guard, rest⟩ := Linkage.holds_append.mp holds
  rw [Nat.zero_add] at rest
  rw [size_append] at whole
  cases b with
  | true =>
    obtain ⟨k, passed⟩ := guard_passes decided guard [] locals 0 0
    rw [Nat.zero_add, Nat.zero_add] at passed
    have walks : Walks code s f.guard.size (Machine.start receiver locals) k
      ⟨[], locals, receiver, f.guard.size, k, 0⟩ := passed
    obtain ⟨_, _, -, -, -, stack⟩ := link_eq_ok linked
    obtain ⟨heights, level, start⟩ := LinkedCode.level_of_checkStack stack
    have known := LinkedCode.known_of_link (fun i hi => f.isKnown_of_mem_code hi) linked
    have stays := LinkedCode.staysFrom_of_holds rest whole f.ordinary_body
    have height := level.reaches known start walks.reaches
    have further : (step code s ⟨[], locals, receiver, size f.guard, k, 0⟩).isSome = true := by
      obtain ⟨i, hi, -⟩ := level _ _ height
      simp [step, hi]
    refine ⟨k, fun limit budget few => ?_, fun limit budget enough => ?_, fun _ => walks.reaches,
      fun {n m} reached early => ?_⟩
    · exact runFrom_cutOff walks.reaches further (Nat.le_of_lt few) limit
    · refine iff_of_false (fun refused => ?_) (by decide)
      obtain ⟨left, rfl⟩ := Nat.exists_eq_add_of_le' enough
      rw [runFrom_of_reaches walks.reaches] at refused
      obtain ⟨n, left', m', reached, -, ends⟩ :=
        @runFrom_cases code s limit left ⟨[], locals, receiver, size f.guard, k, 0⟩
      obtain ⟨after, height'⟩ := stays.reaches level known height (Nat.le_refl _) reached
      rw [refused] at ends
      cases ends with
      | fails fails => exact stays.not_fails level known height' after ⟨_, fails⟩
    · exact walks.before (early.resolve_right (by decide)) reached
  | false =>
    obtain ⟨k, m, refused, inside, m', fails⟩ := guard_refuses other decided guard [] locals 0 0
    rw [Nat.zero_add] at refused inside
    have walks : Walks code s f.guard.size (Machine.start receiver locals) k m := refused
    refine ⟨k + 1, fun limit budget few => ?_, fun limit budget enough => ?_, (by cases ·),
      fun {n a} reached _ => ?_⟩
    · exact runFrom_cutOff walks.reaches (by rw [fails]; rfl) (Nat.le_of_lt_succ few) limit
    · refine iff_of_true ?_ rfl
      obtain ⟨left, rfl⟩ := Nat.exists_eq_add_of_le' enough
      rw [← Nat.add_assoc, Nat.add_right_comm, runFrom_of_reaches walks.reaches, runFrom_fails fails]
    · rcases Nat.lt_trichotomy n k with early | rfl | late
      · exact walks.before early reached
      · exact reached.deterministic walks.reaches ▸ inside
      · obtain ⟨next, hs⟩ := reached.goes_on walks.reaches late
        cases fails.symm.trans hs

end CheckedFunction

end Covenant
