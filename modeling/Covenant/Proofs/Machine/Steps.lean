import Covenant.Machine.Run
/-!
Runs as sequences of steps, and those that stay before a place (`Walks`). The budget of a run decides
only where it is cut off:

* `runFrom_of_reaches`: the run from a state is the run from any state it reaches, with the budget
  that the steps between leave;
* `runFrom_fails`, `runFrom_departs`, `runFrom_cutOff`: what a step that ends the run makes of it, or a
  budget that is too small;
* `runFrom_cases`: every run reaches a state within its budget where it ends, is past the end of the
  code, or has used its budget up.
-/

namespace Covenant.Machine

variable {code : LinkedCode} {s : Surroundings}

/-- What the instruction at the place of a state comes to, and the state it leaves. -/
def step (code : LinkedCode) (s : Surroundings) (m : Machine) :
    Option (Except Failure (Option Departure) × Machine) :=
  code[m.place]?.map fun i =>
    (execute s i).run { m with steps := m.steps + 1, place := m.place + 1 }

theorem step_of_instruction {m : Machine} {i : Instruction Nat} (h : code[m.place]? = some i) :
    step code s m =
      some ((execute s i).run { m with steps := m.steps + 1, place := m.place + 1 }) := by
  simp [step, h]

theorem instruction_of_step {m : Machine} {r : Except Failure (Option Departure) × Machine}
    (h : step code s m = some r) : ∃ i, code[m.place]? = some i ∧
      (execute s i).run { m with steps := m.steps + 1, place := m.place + 1 } = r := by
  simpa [step] using h

inductive Reaches (code : LinkedCode) (s : Surroundings) : Machine → Nat → Machine → Prop
  | refl (m : Machine) : Reaches code s m 0 m
  | next {m m' m'' : Machine} {n : Nat} :
      step code s m = some (.ok none, m') → Reaches code s m' n m'' →
      Reaches code s m (n + 1) m''

def Fails (code : LinkedCode) (s : Surroundings) (m : Machine) (f : Failure) : Prop :=
  ∃ m', step code s m = some (.error f, m')

namespace Reaches

theorem one {m m' : Machine} (h : step code s m = some (.ok none, m')) :
    Reaches code s m 1 m' := .next h (.refl m')

theorem trans {m m' m'' : Machine} {n k : Nat} (h : Reaches code s m n m')
    (h' : Reaches code s m' k m'') : Reaches code s m (n + k) m'' := by
  induction h with
  | refl => simpa using h'
  | next hs _ ih => simpa [Nat.add_right_comm] using Reaches.next hs (ih h')

theorem snoc {m m' m'' : Machine} {n : Nat} (h : Reaches code s m n m')
    (hs : step code s m' = some (.ok none, m'')) : Reaches code s m (n + 1) m'' :=
  h.trans (.one hs)

/-- What holds at first and is kept by each step holds wherever a run comes. -/
theorem invariant {P : Machine → Prop} {m m' : Machine} {n : Nat} (h : Reaches code s m n m')
    (keep : ∀ {m m'}, P m → step code s m = some (.ok none, m') → P m') (hm : P m) : P m' := by
  induction h with
  | refl => exact hm
  | next hs _ ih => exact ih (keep hm hs)

/-- From one state the states after a number of steps are one at most. -/
theorem deterministic {m a b : Machine} {n : Nat} (ha : Reaches code s m n a)
    (hb : Reaches code s m n b) : a = b := by
  induction ha with
  | refl => cases hb; rfl
  | next hs _ ih =>
    cases hb with
    | next hs' hb =>
      rw [hs] at hs'
      injection hs' with e
      injection e with _ e
      exact ih (e ▸ hb)

/-- Of two states that a run reaches, the one with fewer steps comes first. -/
theorem split {m a b : Machine} {n k : Nat} (ha : Reaches code s m n a)
    (hb : Reaches code s m (n + k) b) : Reaches code s a k b := by
  induction ha with
  | refl => simpa using hb
  | @next m m' a n hs _ ih =>
    rw [Nat.add_right_comm] at hb
    cases hb with
    | next hs' hb =>
      rw [hs] at hs'
      injection hs' with e
      injection e with _ e
      exact ih (e ▸ hb)

end Reaches

def after (code : LinkedCode) (s : Surroundings) : Nat → Machine → Option Machine
  | 0, m => some m
  | n + 1, m =>
    match step code s m with
    | some (.ok none, m') => after code s n m'
    | _ => none

theorem reaches_iff_after {m m' : Machine} {n : Nat} :
    Reaches code s m n m' ↔ after code s n m = some m' := by
  induction n generalizing m with
  | zero =>
    rw [after, Option.some.injEq]
    constructor
    · intro h
      cases h
      rfl
    · rintro rfl
      exact .refl m
  | succ n ih =>
    constructor
    · intro h
      cases h with
      | next hs h =>
        rw [after, hs]
        exact ih.mp h
    · intro h
      rw [after] at h
      split at h
      next hs => exact .next hs (ih.mpr h)
      next => cases h

theorem Reaches.exists_earlier {m m' : Machine} {n k : Nat} (h : Reaches code s m n m') (early : k ≤ n) :
    ∃ a, Reaches code s m k a := by
  induction h generalizing k with
  | refl m =>
    obtain rfl := Nat.le_zero.mp early
    exact ⟨m, .refl m⟩
  | next hs _ ih =>
    cases k with
    | zero => exact ⟨_, .refl _⟩
    | succ k =>
      obtain ⟨a, ha⟩ := ih (Nat.le_of_succ_le_succ early)
      exact ⟨a, .next hs ha⟩

/-- A run takes no more steps than there are states for. -/
theorem Reaches.lt_of_after_eq_none {m m' : Machine} {n k : Nat} (h : Reaches code s m n m')
    (ended : after code s k m = none) : n < k := by
  rcases Nat.lt_or_ge n k with few | many
  · exact few
  · obtain ⟨a, ha⟩ := h.exists_earlier many
    rw [reaches_iff_after.mp ha] at ended
    cases ended

/-- A state before the last one is no end of the run. -/
theorem Reaches.goes_on {m a b : Machine} {n k : Nat} (hb : Reaches code s m n b)
    (ha : Reaches code s m k a) (early : k < n) : ∃ a', step code s a = some (.ok none, a') := by
  obtain ⟨j, rfl⟩ := Nat.exists_eq_add_of_lt early
  rw [Nat.add_assoc] at hb
  cases ha.split hb with
  | next hs _ => exact ⟨_, hs⟩

/-- A run ends with one step. -/
theorem Reaches.same_end {m a b a' b' : Machine} {n k : Nat} {r r' : Except Failure (Option Departure)}
    (ha : Reaches code s m n a) (hb : Reaches code s m k b) (hr : step code s a = some (r, a'))
    (hr' : step code s b = some (r', b')) (last : r ≠ .ok none) (last' : r' ≠ .ok none) :
    r = r' ∧ a' = b' := by
  rcases Nat.lt_trichotomy n k with early | rfl | late
  · obtain ⟨_, next⟩ := hb.goes_on ha early
    cases hr.symm.trans next
    exact absurd rfl last
  · obtain rfl := ha.deterministic hb
    cases hr.symm.trans hr'
    exact ⟨rfl, rfl⟩
  · obtain ⟨_, next⟩ := ha.goes_on hb late
    cases hr'.symm.trans next
    exact absurd rfl last'

/-- A run goes from one state to another, at each state before the last one at a place before `stop`. -/
structure Walks (code : LinkedCode) (s : Surroundings) (stop : Nat) (m : Machine) (n : Nat)
    (m' : Machine) : Prop where
  reaches : Reaches code s m n m'
  before : ∀ {k a}, k < n → Reaches code s m k a → a.place < stop

namespace Walks

variable {stop : Nat} {m m' m'' : Machine} {n k : Nat}

theorem refl (m : Machine) : Walks code s stop m 0 m :=
  ⟨.refl m, fun h => absurd h (Nat.not_lt_zero _)⟩

theorem next (here : m.place < stop) (hs : step code s m = some (.ok none, m'))
    (h : Walks code s stop m' n m'') : Walks code s stop m (n + 1) m'' := by
  refine ⟨.next hs h.reaches, fun early ha => ?_⟩
  cases ha with
  | refl => exact here
  | next hs' ha =>
    rw [hs] at hs'
    cases hs'
    exact h.before (Nat.lt_of_succ_lt_succ early) ha

theorem trans (h : Walks code s stop m n m') (h' : Walks code s stop m' k m'') :
    Walks code s stop m (n + k) m'' := by
  refine ⟨h.reaches.trans h'.reaches, fun {j a} early ha => ?_⟩
  rcases Nat.lt_or_ge j n with first | last
  · exact h.before first ha
  · obtain ⟨i, rfl⟩ := Nat.exists_eq_add_of_le last
    exact h'.before (Nat.lt_of_add_lt_add_left early) (h.reaches.split ha)

theorem one (here : m.place < stop) (hs : step code s m = some (.ok none, m')) :
    Walks code s stop m 1 m' := next here hs (refl m')

theorem mono {stop' : Nat} (le : stop ≤ stop') (h : Walks code s stop m n m') :
    Walks code s stop' m n m' :=
  ⟨h.reaches, fun early ha => Nat.lt_of_lt_of_le (h.before early ha) le⟩

end Walks

/-! ## The budget -/

theorem runFrom_of_step {m m' : Machine} (h : step code s m = some (.ok none, m'))
    (limit : Datum) (budget : Nat) :
    runFrom code s limit (budget + 1) m = runFrom code s limit budget m' := by
  obtain ⟨i, hi, he⟩ := instruction_of_step h
  rw [runFrom, hi]
  simp only [he]

/-- A run is the run from any state it reaches, with what is left of the budget. -/
theorem runFrom_of_reaches {m m' : Machine} {n : Nat} (h : Reaches code s m n m')
    (limit : Datum) (budget : Nat) :
    runFrom code s limit (budget + n) m = runFrom code s limit budget m' := by
  induction h with
  | refl => rfl
  | next hs _ ih => rw [← Nat.add_assoc, runFrom_of_step hs, ih]

theorem runFrom_fails {m m' : Machine} {f : Failure} (h : step code s m = some (.error f, m'))
    (limit : Datum) (budget : Nat) : runFrom code s limit (budget + 1) m = ⟨.error f, m'⟩ := by
  obtain ⟨i, hi, he⟩ := instruction_of_step h
  rw [runFrom, hi]
  simp only [he]

theorem runFrom_departs {m m' : Machine} {d : Departure}
    (h : step code s m = some (.ok (some d), m')) (limit : Datum) (budget : Nat) :
    runFrom code s limit (budget + 1) m = ⟨.ok d, m'⟩ := by
  obtain ⟨i, hi, he⟩ := instruction_of_step h
  rw [runFrom, hi]
  simp only [he]

/-- A run is cut off at the last of the states that it may reach, if it does not end before. -/
theorem runFrom_cutOff {m m' : Machine} {n budget : Nat} (h : Reaches code s m n m')
    (further : (step code s m').isSome = true) (few : budget ≤ n) (limit : Datum) :
    (runFrom code s limit budget m).outcome = .error (.stepLimit limit) := by
  induction h generalizing budget with
  | refl =>
    obtain ⟨r, hr⟩ := Option.isSome_iff_exists.mp further
    obtain ⟨i, hi, -⟩ := instruction_of_step hr
    rw [Nat.le_zero.mp few, runFrom, hi]
  | next hs _ ih =>
    cases budget with
    | zero =>
      obtain ⟨i, hi, -⟩ := instruction_of_step hs
      rw [runFrom, hi]
    | succ budget =>
      rw [runFrom_of_step hs]
      exact ih further (Nat.le_of_succ_le_succ few)

/-- A run that ends by leaving the function does so with a step from a state that it reaches. -/
theorem exists_step_of_departs {limit : Datum} {budget : Nat} {m m' : Machine} {departure : Departure}
    (h : runFrom code s limit budget m = ⟨.ok departure, m'⟩) : ∃ n a, Reaches code s m n a ∧
      step code s a = some (.ok (some departure), m') := by
  induction budget generalizing m with
  | zero =>
    rw [runFrom] at h
    split at h <;> cases h
  | succ budget ih =>
    cases hi : code[m.place]? with
    | none =>
      rw [runFrom, hi] at h
      cases h
    | some i =>
      obtain ⟨⟨r, m₁⟩, hr⟩ : ∃ r, step code s m = some r := ⟨_, step_of_instruction hi⟩
      match r, hr with
      | .error f, hr =>
        rw [runFrom_fails hr] at h
        cases h
      | .ok (some other), hr =>
        rw [runFrom_departs hr] at h
        cases h
        exact ⟨0, m, .refl m, hr⟩
      | .ok none, hr =>
        rw [runFrom_of_step hr] at h
        obtain ⟨n, a, reached, hs⟩ := ih h
        exact ⟨n + 1, a, .next hr reached, hs⟩

inductive EndsAt (code : LinkedCode) (s : Surroundings) (limit : Datum) (left : Nat)
    (m : Machine) : Except Failure Departure → Prop
  | past : code[m.place]? = none → EndsAt code s limit left m (.error .pastEnd)
  | cutOff : left = 0 → EndsAt code s limit left m (.error (.stepLimit limit))
  | fails {f : Failure} {m' : Machine} : step code s m = some (.error f, m') →
      EndsAt code s limit left m (.error f)
  | departs {d : Departure} {m' : Machine} : step code s m = some (.ok (some d), m') →
      EndsAt code s limit left m (.ok d)

theorem runFrom_cases (limit : Datum) (budget : Nat) (m : Machine) :
    ∃ n left m', Reaches code s m n m' ∧ n + left = budget ∧
      EndsAt code s limit left m' (runFrom code s limit budget m).outcome := by
  induction budget generalizing m with
  | zero =>
    refine ⟨0, 0, m, .refl m, rfl, ?_⟩
    rw [runFrom]
    split
    · exact .past ‹_›
    · exact .cutOff rfl
  | succ budget ih =>
    cases hi : code[m.place]? with
    | none =>
      refine ⟨0, budget + 1, m, .refl m, by omega, ?_⟩
      rw [runFrom, hi]
      exact .past hi
    | some i =>
      obtain ⟨⟨r, m'⟩, hr⟩ : ∃ r, step code s m = some r := ⟨_, step_of_instruction hi⟩
      match r, hr with
      | .error f, hr =>
        exact ⟨0, budget + 1, m, .refl m, by omega, runFrom_fails hr limit budget ▸ .fails hr⟩
      | .ok (some d), hr =>
        exact ⟨0, budget + 1, m, .refl m, by omega, runFrom_departs hr limit budget ▸ .departs hr⟩
      | .ok none, hr =>
        obtain ⟨n, left, m'', h, hb, he⟩ := ih m'
        exact ⟨n + 1, left, m'', .next hr h, by omega, runFrom_of_step hr limit budget ▸ he⟩

end Covenant.Machine
