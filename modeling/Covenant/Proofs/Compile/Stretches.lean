import Covenant.Proofs.Compile.Passages
/-!
Slots that have been set before they are read.

* `Code.Loads`: code reads given slots only;
* `Code.Bypasses`: no instruction of a piece of code jumps into another one;
* `Code.Covered`: each slot that code reads is a given one, or the instruction that sets it stands before
  a stretch of code that is entered only past it;
* `Linkage.Secludes.exists_entered`: a run enters such a stretch past the instruction before it;
* `Linkage.exists_store`: a run that comes to read such a slot has set it.
-/

namespace Covenant

open Machine

namespace Code

/-- An element of two lists after one another stands in the first or in the second one. -/
theorem append_eq_cons_cases {α : Type} {a b front back : List α} {x : α} (h : a ++ b = front ++ x :: back) :
    (∃ rest, a = front ++ x :: rest ∧ back = rest ++ b) ∨ ∃ pre, front = a ++ pre ∧ b = pre ++ x :: back := by
  rcases List.append_eq_append_iff.mp h with ⟨pre, rfl, rest⟩ | ⟨inner, rfl, rest⟩
  · exact .inr ⟨pre, rfl, rest⟩
  · cases inner with
    | nil => exact .inr ⟨[], by simp, rest.symm⟩
    | cons y inner =>
      cases rest
      exact .inl ⟨inner, rfl, rfl⟩

variable {S S' : Nat → Prop} {a b c : Code}

/-- Code that reads given slots only. -/
def Loads (S : Nat → Prop) (code : Code) : Prop := ∀ k, .instruction (.loadLocal k) ∈ code → S k

/-- No instruction of the first code jumps to a label in the second. -/
def Bypasses (a b : Code) : Prop :=
  ∀ i, .instruction i ∈ a → ∀ name, i.jumpTarget? = some name → name ∉ b.labelNames

/-- Wherever code reads a slot, it is a given one, or the slot is set in front of a stretch of code around
that place into which the code outside does not jump. -/
def Covered (S : Nat → Prop) (code : Code) : Prop :=
  ∀ front k back, code = front ++ .op (.loadLocal k) :: back → S k ∨ ∃ pre mid rest post,
    front = pre ++ .op (.storeLocal k) :: mid ∧ back = rest ++ post ∧
      Bypasses pre (mid ++ rest) ∧ Bypasses post (mid ++ rest)

@[simp] theorem loads_nil : Loads S [] := nofun

@[simp] theorem loads_append : Loads S (a ++ b) ↔ Loads S a ∧ Loads S b := by
  constructor
  · exact fun h => ⟨fun k hk => h k (List.mem_append_left _ hk), fun k hk => h k (List.mem_append_right _ hk)⟩
  · exact fun h k hk => (List.mem_append.mp hk).elim (h.1 k) (h.2 k)

@[simp] theorem loads_label {name : String} : Loads S (.label name :: a) ↔ Loads S a := by
  simp [Loads]

@[simp] theorem loads_op {i : Instruction String} :
    Loads S (.op i :: a) ↔ (∀ k, i = .loadLocal k → S k) ∧ Loads S a := by
  simp only [Loads, Line.op, List.mem_cons, Line.instruction.injEq]
  constructor
  · exact fun h => ⟨fun k hk => h k (.inl hk.symm), fun k hk => h k (.inr hk)⟩
  · exact fun h k hk => hk.elim (fun same => h.1 k same.symm) (h.2 k)

theorem Loads.mono (h : Loads S a) (le : ∀ k, S k → S' k) : Loads S' a := fun k hk => le k (h k hk)

theorem Loads.covered (h : Loads S a) : Covered S a := by
  rintro front k back rfl
  exact .inl (h k (List.mem_append_right _ List.mem_cons_self))

theorem Bypasses.append (ha : Bypasses a c) (hb : Bypasses b c) : Bypasses (a ++ b) c :=
  fun i hi => (List.mem_append.mp hi).elim (ha i) (hb i)

/-- What does not jump into code does not jump into the code around one of its instructions. -/
theorem Bypasses.around {i : Instruction String} (h : Bypasses a (b ++ .op i :: c)) :
    Bypasses a (b ++ c) := by
  intro j hj name hn
  simpa using h j hj name hn

theorem Bypasses.stretch {pre mid rest post : Code} {i j : Instruction String}
    (h : Bypasses a (pre ++ .op i :: mid ++ .op j :: (rest ++ post))) : Bypasses a (mid ++ rest) := by
  intro i' hi name hn
  have := h i' hi name hn
  simp only [labelNames_append, labelNames_op, List.mem_append, not_or] at this ⊢
  exact ⟨this.1.2, this.2.1⟩

namespace Covered

theorem mono (h : Covered S a) (le : ∀ k, S k → S' k) : Covered S' a :=
  fun front k back same => (h front k back same).imp_left (le k)

/-- Two pieces of code after one another, neither of which jumps into stretches of the other. -/
theorem append (ha : Covered S a) (hb : Covered S b) (into : Loads S a ∨ Bypasses b a)
    (onto : Loads S b ∨ Bypasses a b) : Covered S (a ++ b) := by
  intro front k back same
  rcases append_eq_cons_cases same with ⟨inner, rfl, rfl⟩ | ⟨before, rfl, rfl⟩
  -- the first piece reads the slot
  · rcases into with loads | bypasses
    · exact .inl (loads k (List.mem_append_right _ List.mem_cons_self))
    · refine (ha front k inner rfl).imp_right ?_
      rintro ⟨pre, mid, rest, post, rfl, rfl, first, last⟩
      exact ⟨pre, mid, rest, post ++ b, rfl, by simp, first, last.append bypasses.stretch⟩
  -- the second one reads it
  · rcases onto with loads | bypasses
    · exact .inl (loads k (List.mem_append_right _ List.mem_cons_self))
    · refine (hb before k back rfl).imp_right ?_
      rintro ⟨pre, mid, rest, post, rfl, rfl, first, last⟩
      exact ⟨a ++ pre, mid, rest, post, by simp, rfl, bypasses.stretch.append first, last⟩

/-- After a slot has been set, code may read it until its end. -/
theorem store {k : Nat} (ha : Loads S a) (hb : Covered (fun j => S j ∨ j = k) b) (bypasses : Bypasses a b) :
    Covered S (a ++ .op (.storeLocal k) :: b) := by
  intro front j back same
  rcases append_eq_cons_cases same with ⟨inner, rfl, rfl⟩ | ⟨before, rfl, here⟩
  · exact .inl (ha j (List.mem_append_right _ List.mem_cons_self))
  cases before with
  | nil => cases here
  | cons line before =>
    obtain ⟨rfl, rfl⟩ := List.cons.inj here
    rcases hb before j back rfl with (given | rfl) | ⟨pre, mid, rest, post, rfl, rfl, first, last⟩
    · exact .inl given
    · exact .inr ⟨a, before, back, [], rfl, by simp, bypasses.around, nofun⟩
    · refine .inr ⟨a ++ .op (.storeLocal k) :: pre, mid, rest, post, by simp, rfl, ?_, last⟩
      refine .append bypasses.stretch fun i hi name hn => ?_
      rcases List.mem_cons.mp hi with store | hi
      · cases store
        cases hn
      · exact first i hi name hn

end Covered

end Code

/-! ## Linked code -/

open Code

theorem Machine.Reaches.exists_last {code : LinkedCode} {s : Surroundings} {m m' : Machine} {n : Nat}
    (h : Reaches code s m (n + 1) m') : ∃ a, Reaches code s m n a ∧ step code s a = some (.ok none, m') := by
  obtain ⟨a, reached⟩ := h.exists_earlier (Nat.le_succ n)
  cases reached.split h with
  | next hs rest =>
    cases rest
    exact ⟨a, reached, hs⟩

namespace Code

variable {abi : Abi} {header : Header} {labels : List (String × Nat)}

theorem eq_loadLocal_of_link {i : Instruction String} {k : Nat}
    (h : linkInstruction abi header labels i = .ok (.loadLocal k)) : i = .loadLocal k := by
  cases i with
  | loadLocal _ =>
    obtain ⟨_, -, h⟩ := bind_eq_ok.mp h
    cases pure_eq_ok.mp h
    rfl
  | jump _ | jumpIfFalse _ | jumpIfTrue _ | push _ _ | loadThis _ | storeThis _ | storeLocal _ =>
    obtain ⟨_, -, h⟩ := bind_eq_ok.mp h
    cases pure_eq_ok.mp h
  | deref _ | loadContext _ =>
    rw [linkInstruction] at h
    split at h <;> cases h
  | _ => cases h

theorem exists_linked_of_mem {code : Code} {linked : List (Instruction Nat)}
    (h : linkAll abi header labels code = .ok linked) {i : Instruction String} (hi : .instruction i ∈ code) :
    ∃ j, linkInstruction abi header labels i = .ok j := by
  induction code generalizing linked with
  | nil => cases hi
  | cons line rest ih =>
    cases line with
    | label name =>
      rcases List.mem_cons.mp hi with same | hi
      · cases same
      · exact ih h hi
    | instruction i' =>
      obtain ⟨j, linked', hj, hr, rfl⟩ := linkAll_cons_eq_ok h
      rcases List.mem_cons.mp hi with same | hi
      · cases same
        exact ⟨j, hj⟩
      · exact ih hr hi

/-- Code that has been linked jumps to its own labels. -/
theorem closed_of_link {code : Code} {linked : LinkedCode} (h : code.link abi header = .ok linked) :
    ∀ i, .instruction i ∈ code → ∀ name, i.jumpTarget? = some name → name ∈ code.labelNames := by
  obtain ⟨labels, l, hp, hl, -, -⟩ := link_eq_ok h
  obtain ⟨rfl, -, -⟩ := places_eq_ok_iff.mp hp
  intro i hi name hn
  obtain ⟨j, hj⟩ := exists_linked_of_mem hl hi
  have marked : ∃ place, ((marks 0 code).reverse ++ []).lookup name = some place := by
    cases i with
    | jump other | jumpIfFalse other | jumpIfTrue other =>
      cases hn
      obtain ⟨place, hp, -⟩ := bind_eq_ok.mp hj
      exact ⟨place, linkTarget_eq_ok.mp hp⟩
    | _ => cases hn
  rw [exists_lookup_iff, List.append_nil, List.map_reverse, List.mem_reverse, marks_map_fst] at marked
  exact marked

end Code

namespace Linkage

variable {l : Linkage} {place : Nat} {code : Code}

theorem HasAt.storeLocal {slot : Nat} (here : l.HasAt place (.storeLocal slot)) :
    l.code[place]? = some (.storeLocal slot) := by
  obtain ⟨j, hj, there⟩ := here
  obtain ⟨_, -, hj⟩ := bind_eq_ok.mp hj
  cases pure_eq_ok.mp hj
  exact there

/-- Code that stands in linked code has one of its instructions at each place. -/
theorem Holds.exists_split (holds : l.Holds place code) {p : Nat} (inside : p < size code) :
    ∃ front i back, code = front ++ .op i :: back ∧ size front = p ∧ l.HasAt (place + p) i := by
  induction code generalizing place p with
  | nil => cases inside
  | cons line rest ih =>
    cases line with
    | label name =>
      obtain ⟨front, i, back, rfl, at_, here⟩ := ih holds.2 inside
      exact ⟨.label name :: front, i, back, rfl, at_, here⟩
    | instruction i =>
      cases p with
      | zero => exact ⟨[], i, rest, rfl, rfl, holds.1⟩
      | succ p =>
        obtain ⟨front, i', back, rfl, at_, here⟩ := ih holds.2 (Nat.lt_of_succ_lt_succ inside)
        refine ⟨.instruction i :: front, i', back, rfl, by rw [size, at_], ?_⟩
        rw [Nat.add_assoc, Nat.add_comm 1] at here
        exact here

/-- Linked code with a stretch behind one of its instructions into which the code outside does not jump. -/
structure Secludes (l : Linkage) (pre : Code) (i : Instruction String) (stretch post : Code) : Prop where
  holds : l.Holds 0 (pre ++ .op i :: (stretch ++ post))
  whole : l.code.size = size (pre ++ .op i :: (stretch ++ post))
  closed : ∀ j, .instruction j ∈ pre ++ .op i :: (stretch ++ post) → ∀ name, j.jumpTarget? = some name →
    name ∈ (pre ++ .op i :: (stretch ++ post)).labelNames
  first : Bypasses pre stretch
  last : Bypasses post stretch

namespace Secludes

variable {pre stretch post : Code} {i : Instruction String}

/-- The labels outside the stretch mark places outside it. -/
theorem mark_outside (h : l.Secludes pre i stretch post) {name : String}
    (here : name ∈ (pre ++ .op i :: (stretch ++ post)).labelNames) (outside : name ∉ stretch.labelNames)
    {q : Nat} (marks : l.labels.lookup name = some q) : q ≤ size pre ∨ size pre + size stretch < q := by
  obtain ⟨before, -, later⟩ := holds_append.mp h.holds
  obtain ⟨-, after⟩ := holds_append.mp later
  simp only [labelNames_append, labelNames_op, List.mem_append] at here
  rcases here with here | here | here
  · exact .inl (Nat.zero_add (size pre) ▸ before.label_le here marks)
  · exact absurd here outside
  · obtain ⟨q', marks', least⟩ := after.exists_label here
    cases marks.symm.trans marks'
    right
    omega

/-- An instruction outside the stretch leads to the next place, or to one outside the stretch. -/
theorem next_of_bypasses (h : l.Secludes pre i stretch post) {j : Instruction String} {j' : Instruction Nat}
    (hj : .instruction j ∈ pre ++ .op i :: (stretch ++ post))
    (bypasses : ∀ name, j.jumpTarget? = some name → name ∉ stretch.labelNames)
    (linked : linkInstruction l.abi l.header l.labels j = .ok j') {next : Nat}
    (onward : next ∈ j'.successors place) :
    next = place + 1 ∨ next ≤ size pre ∨ size pre + size stretch < next := by
  rcases Instruction.mem_successors onward with ⟨-, straight⟩ | jumps
  · exact .inl straight
  · obtain ⟨name, named, marks⟩ := (linkInstruction_shape linked).target next jumps
    exact .inr (h.mark_outside (h.closed j hj name named) (bypasses name named) marks)

/-- A step comes to the stretch from the instruction before it, or from inside. -/
theorem step (h : l.Secludes pre i stretch post) {j' : Instruction Nat} (here : l.code[place]? = some j')
    {next : Nat} (onward : next ∈ j'.successors place) (after : size pre < next)
    (within : next ≤ size pre + size stretch) : size pre ≤ place ∧ place ≤ size pre + size stretch := by
  obtain ⟨before, -, later⟩ := holds_append.mp h.holds
  obtain ⟨-, behind⟩ := holds_append.mp later
  have inside : place < l.code.size := (Array.getElem?_eq_some_iff.mp here).1
  rw [h.whole] at inside
  simp only [size_append, size_op] at inside
  by_contra outside
  rcases Nat.lt_or_ge place (size pre) with early | late
  · obtain ⟨j, hj, j'', linked, there⟩ := before.exists_at early
    rw [Nat.zero_add] at there
    cases here.symm.trans there
    have next := h.next_of_bypasses (List.mem_append_left _ hj) (h.first j hj) linked onward
    omega
  · obtain ⟨k, at_⟩ : ∃ k, place = 0 + size pre + 1 + size stretch + k := Nat.exists_eq_add_of_le (by omega)
    obtain ⟨j, hj, j'', linked, there⟩ := behind.exists_at (k := k) (by omega)
    rw [← at_] at there
    cases here.symm.trans there
    have mem : .instruction j ∈ pre ++ .op i :: (stretch ++ post) :=
      List.mem_append_right _ (List.mem_cons_of_mem _ (List.mem_append_right _ hj))
    have next := h.next_of_bypasses mem (h.last j hj) linked onward
    omega

/-- A run that starts before the stretch and comes to it has come to the instruction before it. -/
theorem exists_entered (h : l.Secludes pre i stretch post) {heights : Nat → Option Nat}
    (level : LinkedCode.Level l.code heights) (known : l.code.Known) {s : Surroundings} {m : Machine}
    (start : m.place = 0) (height : heights m.place = some m.stack.length) {n : Nat} {m' : Machine}
    (reached : Reaches l.code s m n m') (after : size pre < m'.place)
    (within : m'.place ≤ size pre + size stretch) :
    ∃ k a, k < n ∧ Reaches l.code s m k a ∧ a.place = size pre := by
  induction n generalizing m' with
  | zero =>
    cases reached
    omega
  | succ n ih =>
    obtain ⟨a, reached', hs⟩ := reached.exists_last
    obtain ⟨j', hj', moves⟩ := level.meets known (level.reaches known height reached') hs
    obtain ⟨least, most⟩ := h.step hj' (moves.next a.place rfl) after within
    rcases Nat.eq_or_lt_of_le least with here | late
    · exact ⟨n, a, Nat.lt_succ_self n, reached', here.symm⟩
    · obtain ⟨k, b, few, reached, here⟩ := ih reached' late most
      exact ⟨k, b, Nat.lt_succ_of_lt few, reached, here⟩

end Secludes

/-- A run that comes to read a slot which is not given has set it. -/
theorem exists_store {heights : Nat → Option Nat} (level : LinkedCode.Level l.code heights)
    (known : l.code.Known) (holds : l.Holds 0 code) (whole : l.code.size = size code)
    (closed : ∀ j, .instruction j ∈ code → ∀ name, j.jumpTarget? = some name → name ∈ code.labelNames)
    {S : Nat → Prop} (covered : Covered S code) {s : Surroundings} {m : Machine} (start : m.place = 0)
    (height : heights m.place = some m.stack.length) {n : Nat} {m' : Machine}
    (reached : Reaches l.code s m n m') {k : Nat} (here : l.code[m'.place]? = some (.loadLocal k)) :
    S k ∨ ∃ j a, j < n ∧ Reaches l.code s m j a ∧ l.code[a.place]? = some (.storeLocal k) := by
  have inside : m'.place < l.code.size := (Array.getElem?_eq_some_iff.mp here).1
  obtain ⟨front, i, back, rfl, size_front, i', linked, there⟩ := holds.exists_split (whole ▸ inside)
  rw [Nat.zero_add] at there
  cases here.symm.trans there
  obtain rfl := eq_loadLocal_of_link linked
  refine (covered front k back rfl).imp_right ?_
  rintro ⟨pre, mid, rest, post, rfl, rfl, first, last⟩
  have split : pre ++ .op (.storeLocal k) :: mid ++ .op (.loadLocal k) :: (rest ++ post) =
      pre ++ .op (.storeLocal k) :: ((mid ++ .op (.loadLocal k) :: rest) ++ post) := by simp
  rw [split] at holds whole closed
  have bypasses : ∀ {outside : Code}, Bypasses outside (mid ++ rest) →
      Bypasses outside (mid ++ .op (.loadLocal k) :: rest) := by
    intro outside h i hi name hn
    simpa using h i hi name hn
  simp only [size_append, size_op] at size_front
  have secludes : l.Secludes pre (.storeLocal k) (mid ++ .op (.loadLocal k) :: rest) post :=
    ⟨holds, whole, closed, bypasses first, bypasses last⟩
  obtain ⟨j, a, few, reached', at_⟩ := secludes.exists_entered level known start height reached (by omega)
    (by simp only [size_append, size_op]; omega)
  obtain ⟨-, stores, -⟩ := holds_append.mp holds
  exact ⟨j, a, few, reached', by rw [at_, ← Nat.zero_add (size pre)]; exact stores.storeLocal⟩

end Linkage

end Covenant
