import Covenant.Proofs.Code.Lines
/-!
Code as it leads from one level of the stack to another, piece by piece. A level is what is known of the
stack at a place, its height or the types of its values, and a discipline says what an instruction makes
of it.

* `Leads`: a piece of code leads from one level to another, the labels around it having known levels and
  its own ones some; pieces are put together by `Leads.append` and `Leads.labelled`;
* `exists_levels`: in code that ends by leaving the function each place has a level once it is linked, and
  the places that an instruction leads on to have the level that it makes.
-/

namespace Covenant

namespace Code

open Instruction

/-- Code leads from one level to another when its labels have the given levels. After a line that does
not go on any level may follow. -/
inductive Flows {α : Type} (does : Instruction String → α → α → Prop) (levels : List (String × α)) :
    α → Code → α → Prop
  | nil (a : α) : Flows does levels a [] a
  | label {a b : α} {name : String} {rest : Code} (here : (name, a) ∈ levels)
      (flows : Flows does levels a rest b) : Flows does levels a (.label name :: rest) b
  | instruction {a made next b : α} {i : Instruction String} {rest : Code} (makes : does i a made)
      (target : ∀ name, i.jumpTarget? = some name → (name, made) ∈ levels)
      (after : i.goesOn = true → next = made) (flows : Flows does levels next rest b) :
      Flows does levels a (.instruction i :: rest) b

section
variable {α β : Type} {does : Instruction String → α → α → Prop}
  {does' : Instruction String → β → β → Prop} {levels levels' known : List (String × α)} {a b c : α}
  {code code' : Code}

namespace Flows

theorem mono (sub : levels ⊆ levels') (flows : Flows does levels a code b) :
    Flows does levels' a code b := by
  induction flows with
  | nil a => exact .nil a
  | label here _ ih => exact .label (sub here) ih
  | instruction makes target after _ ih =>
    exact .instruction makes (fun name hn => sub (target name hn)) after ih

theorem append (first : Flows does levels a code b) (second : Flows does levels b code' c) :
    Flows does levels a (code ++ code') c := by
  induction first with
  | nil a => exact second
  | label here _ ih => exact .label here (ih second)
  | instruction makes target after _ ih => exact .instruction makes target after (ih second)

/-- What leads on in one discipline does so in a coarser one. -/
theorem map {f : α → β} (coarser : ∀ {i a b}, does i a b → does' i (f a) (f b))
    (flows : Flows does levels a code b) :
    Flows does' (levels.map fun p => (p.1, f p.2)) (f a) code (f b) := by
  induction flows with
  | nil a => exact .nil (f a)
  | label here _ ih => exact .label (List.mem_map.mpr ⟨_, here, rfl⟩) ih
  | instruction makes target after _ ih =>
    exact .instruction (coarser makes) (fun name hn => List.mem_map.mpr ⟨_, target name hn, rfl⟩)
      (fun hg => congrArg f (after hg)) ih

theorem target_mem (flows : Flows does levels a code b) {i : Instruction String}
    (hi : .instruction i ∈ code) {name : String} (hn : i.jumpTarget? = some name) :
    name ∈ levels.map Prod.fst := by
  induction flows with
  | nil => cases hi
  | label _ _ ih =>
    rcases List.mem_cons.mp hi with he | hi
    · cases he
    · exact ih hi
  | instruction _ target _ _ ih =>
    rcases List.mem_cons.mp hi with he | hi
    · cases he
      exact List.mem_map.mpr ⟨_, target name hn, rfl⟩
    · exact ih hi

end Flows

/-- A piece of code leads from one level to another, labels elsewhere having the known levels. -/
def Leads (does : Instruction String → α → α → Prop) (known : List (String × α)) (a : α) (code : Code)
    (b : α) : Prop :=
  ∃ own : List (String × α), own.map Prod.fst = code.labelNames ∧
    Flows does (known ++ own) a code b

namespace Leads

theorem nil (a : α) : Leads does known a [] a := ⟨[], rfl, .nil a⟩

theorem append (first : Leads does known a code b) (second : Leads does known b code' c) :
    Leads does known a (code ++ code') c := by
  obtain ⟨own, names, flows⟩ := first
  obtain ⟨own', names', flows'⟩ := second
  refine ⟨own ++ own', by rw [List.map_append, names, names', labelNames_append], ?_⟩
  refine (flows.mono fun x hx => ?_).append (flows'.mono fun x hx => ?_)
  · rcases List.mem_append.mp hx with hx | hx
    · exact List.mem_append_left _ hx
    · exact List.mem_append_right _ (List.mem_append_left _ hx)
  · rcases List.mem_append.mp hx with hx | hx
    · exact List.mem_append_left _ hx
    · exact List.mem_append_right _ (List.mem_append_right _ hx)

/-- A label between two pieces of code that may both jump to it. -/
theorem labelled {name : String} (first : Leads does ((name, b) :: known) a code b)
    (second : Leads does ((name, b) :: known) b code' c) :
    Leads does known a (code ++ .label name :: code') c := by
  obtain ⟨own, names, flows⟩ := first
  obtain ⟨own', names', flows'⟩ := second
  refine ⟨own ++ (name, b) :: own', by simp [names, names'], ?_⟩
  refine (flows.mono fun x hx => ?_).append (.label (by simp) (flows'.mono fun x hx => ?_))
  · simp only [List.cons_append, List.mem_cons, List.mem_append] at hx ⊢
    tauto
  · simp only [List.cons_append, List.mem_cons, List.mem_append] at hx ⊢
    tauto

theorem map {f : α → β} (coarser : ∀ {i a b}, does i a b → does' i (f a) (f b))
    (leads : Leads does known a code b) :
    Leads does' (known.map fun p => (p.1, f p.2)) (f a) code (f b) := by
  obtain ⟨own, names, flows⟩ := leads
  refine ⟨own.map fun p => (p.1, f p.2), ?_, ?_⟩
  · rw [← names, List.map_map]
    rfl
  · rw [← List.map_append]
    exact flows.map coarser

theorem cons {line : Line} (first : Leads does known a [line] b) (rest : Leads does known b code c) :
    Leads does known a (line :: code) c := first.append rest

/-! ### One instruction -/

variable {i : Instruction String} {name : String}

/-- One instruction, whose label stands elsewhere if it has one. -/
theorem instruction {made : α} (makes : does i a made)
    (target : ∀ name, i.jumpTarget? = some name → (name, made) ∈ known)
    (after : i.goesOn = true → b = made) : Leads does known a [.op i] b :=
  ⟨[], rfl, .instruction makes (fun name hn => List.mem_append_left _ (target name hn)) after
    (.nil b)⟩

/-- An instruction after which execution goes on with the next one only. -/
theorem straight (no : i.jumpTarget? = none) (makes : does i a b) : Leads does known a [.op i] b :=
  instruction makes (fun name hn => by rw [no] at hn; cases hn) fun _ => rfl

/-- A conditional jump: execution goes on or at a label. -/
theorem branch (target : i.jumpTarget? = some name) (makes : does i a b) (here : (name, b) ∈ known) :
    Leads does known a [.op i] b := by
  refine instruction makes (fun n hn => ?_) fun _ => rfl
  rw [target] at hn
  cases hn
  exact here

/-- A jump, after which any level may follow. -/
theorem jump (makes : does (.jump name) a b) (here : (name, b) ∈ known) (c : α) :
    Leads does known a [.op (.jump name)] c := by
  refine instruction makes (fun n hn => ?_) fun hg => by cases hg
  cases hn
  exact here

/-- An instruction that leaves the function, after which any level may follow. -/
theorem last (leaves : i.isLast = true) (makes : does i a b) (c : α) :
    Leads does known a [.op i] c := by
  refine instruction makes (fun n hn => ?_) fun hg => ?_
  · rw [jumpTarget_of_isLast leaves] at hn
    cases hn
  · rw [goesOn_of_isLast leaves] at hg
    cases hg

/-- The jumps of code that knows no labels around it go to labels of its own. -/
theorem target_mem (leads : Leads does [] a code b) (hi : .instruction i ∈ code)
    (hn : i.jumpTarget? = some name) : name ∈ code.labelNames := by
  obtain ⟨own, names, flows⟩ := leads
  rw [← names]
  exact flows.target_mem hi hn

end Leads

/-! ## Levels at every place -/

structure LevelsAt (does : Instruction String → α → α → Prop) (levels : List (String × α)) (code : Code)
    (place : Nat) (found : List α) : Prop where
  length : found.length = code.size + 1
  labels : ∀ name q, (name, q) ∈ code.marks place → ∃ a, found[q - place]? = some a ∧ place ≤ q ∧
    (name, a) ∈ levels
  instructions : ∀ p i, code.instructions[p]? = some i → ∃ a made, found[p]? = some a ∧
    does i a made ∧ (∀ name, i.jumpTarget? = some name → (name, made) ∈ levels) ∧
    (i.goesOn = true → found[p + 1]? = some made)

theorem exists_levelsAt (flows : Flows does levels a code b) (place : Nat) :
    ∃ found, LevelsAt does levels code place found ∧ found[0]? = some a := by
  induction flows generalizing place with
  | nil a => exact ⟨[a], ⟨rfl, by simp [marks], by simp [instructions]⟩, rfl⟩
  | @label a b name rest here _ ih =>
    obtain ⟨found, all, first⟩ := ih place
    refine ⟨found, ⟨all.length, fun n q hq => ?_, all.instructions⟩, first⟩
    rcases List.mem_cons.mp hq with he | hq
    · obtain ⟨rfl, rfl⟩ := Prod.mk.inj he
      exact ⟨a, by rw [Nat.sub_self]; exact first, Nat.le_refl _, here⟩
    · exact all.labels n q hq
  | @instruction a made next b i rest makes target after _ ih =>
    obtain ⟨found, all, first⟩ := ih (place + 1)
    refine ⟨a :: found, ⟨by rw [List.length_cons, all.length]; rfl, fun n q hq => ?_,
      fun p j hj => ?_⟩, rfl⟩
    · obtain ⟨a', ha, hq', hm⟩ := all.labels n q hq
      refine ⟨a', ?_, by omega, hm⟩
      rw [show q - place = q - (place + 1) + 1 by omega, List.getElem?_cons_succ]
      exact ha
    · cases p with
      | zero =>
        cases hj
        exact ⟨a, made, rfl, makes, target,
          fun hg => by rw [List.getElem?_cons_succ, first, after hg]⟩
      | succ p => exact all.instructions p j hj

end

theorem linkAll_getElem {abi : Abi} {header : Header} {labels : List (String × Nat)} {code : Code}
    {linked : List (Instruction Nat)} (h : linkAll abi header labels code = .ok linked) (p : Nat)
    {i : Instruction String} (hi : code.instructions[p]? = some i) :
    ∃ j, linkInstruction abi header labels i = .ok j ∧ linked[p]? = some j := by
  induction code generalizing linked p with
  | nil => simp [instructions] at hi
  | cons line rest ih =>
    cases line with
    | label name => exact ih h p hi
    | instruction i' =>
      obtain ⟨j, linked', hj, hr, rfl⟩ := linkAll_cons_eq_ok h
      cases p with
      | zero =>
        cases hi
        exact ⟨j, hj, rfl⟩
      | succ p => exact ih hr p hi

/-- No label marks the end of code that ends with an instruction. -/
theorem mark_lt (code : Code) (i : Instruction String) (place : Nat) {name : String} {q : Nat}
    (h : (name, q) ∈ marks place (code ++ [.op i])) : q ≤ place + code.size := by
  induction code generalizing place with
  | nil => cases h
  | cons line rest ih =>
    cases line with
    | label n =>
      rcases List.mem_cons.mp h with he | h
      · obtain ⟨-, rfl⟩ := Prod.mk.inj he
        exact Nat.le_add_right _ _
      · exact ih place h
    | instruction i' =>
      have := ih (place + 1) h
      simp only [size]
      omega

/-- An instruction after which execution goes on is not the last one of code that ends by leaving the
function. -/
theorem succ_lt_of_goesOn {front : Code} {i last : Instruction String} {p : Nat}
    (leaves : last.isLast = true) (hi : (instructions (front ++ [.op last]))[p]? = some i)
    (goesOn : i.goesOn = true) : p < front.size := by
  rw [instructions_append, show instructions [.op last] = [last] from rfl] at hi
  rcases Nat.lt_or_ge p front.size with h | h
  · exact h
  · rw [← length_instructions] at h
    rw [List.getElem?_append_right h] at hi
    rw [List.mem_singleton.mp (List.mem_of_getElem? hi), goesOn_of_isLast leaves] at goesOn
    cases goesOn

/-- Levels of the places of linked code, each of which has an instruction that leads on to places with
the level that it makes. -/
def LevelsOf {α : Type} (does : Instruction String → α → α → Prop) (abi : Abi) (header : Header)
    (labels : List (String × Nat)) (linked : LinkedCode) (levels : Nat → Option α) : Prop :=
  ∀ p a, levels p = some a → ∃ i j made, linkInstruction abi header labels i = .ok j ∧
    linked[p]? = some j ∧ does i a made ∧ ∀ next ∈ j.successors p, levels next = some made

/-- Code that leads on and ends by leaving the function has levels once it is linked. -/
theorem exists_levels {α : Type} {does : Instruction String → α → α → Prop} {a b : α} {abi : Abi}
    {header : Header} {front : Code} {last : Instruction String} {linked : List (Instruction Nat)}
    (leads : Leads does [] a (front ++ [.op last]) b) (leaves : last.isLast = true)
    (nodup : (labelNames (front ++ [.op last])).Nodup)
    (hl : linkAll abi header (marks 0 (front ++ [.op last])).reverse (front ++ [.op last]) =
      .ok linked) :
    ∃ levels, LevelsOf does abi header (marks 0 (front ++ [.op last])).reverse linked.toArray levels ∧
      levels 0 = some a := by
  obtain ⟨own, names, flows⟩ := leads
  have nodup' : (own.map Prod.fst).Nodup := names ▸ nodup
  rw [List.nil_append] at flows
  obtain ⟨found, all, first⟩ := exists_levelsAt flows 0
  have size : linked.length = front.size + 1 := by
    rw [length_of_linkAll hl]
    simp
  refine ⟨fun p => if p < linked.length then found[p]? else none, fun p a hp => ?_, ?_⟩
  · simp only [Option.ite_none_right_eq_some] at hp
    obtain ⟨hlt, hp⟩ := hp
    obtain ⟨i, hi⟩ : ∃ i, (instructions (front ++ [.op last]))[p]? = some i := by
      refine ⟨_, List.getElem?_eq_getElem ?_⟩
      rw [length_instructions, ← length_of_linkAll hl]
      exact hlt
    obtain ⟨j, hj, hq⟩ := linkAll_getElem hl p hi
    have shape := linkInstruction_shape hj
    obtain ⟨a', made, ha, makes, target, after⟩ := all.instructions p i hi
    obtain rfl : a = a' := Option.some.inj (hp.symm.trans ha)
    refine ⟨i, j, made, hj, by simpa using hq, makes, fun next hn => ?_⟩
    change (if next < linked.length then found[next]? else none) = _
    rcases mem_successors hn with ⟨goesOn, rfl⟩ | jumps
    · rw [shape.goesOn] at goesOn
      have inside := succ_lt_of_goesOn leaves hi goesOn
      rw [if_pos (by omega), after goesOn]
    · obtain ⟨name, hname, hlook⟩ := shape.target next jumps
      have hm := List.mem_reverse.mp (mem_of_lookup hlook)
      have inside := mark_lt front last 0 hm
      obtain ⟨a', ha', -, hmem⟩ := all.labels name next hm
      -- the label has one level, whether execution jumps to it or comes to it
      have same := lookup_of_mem nodup' hmem
      rw [lookup_of_mem nodup' (target name hname), Option.some.injEq] at same
      rw [if_pos (by omega), same]
      simpa using ha'
  · simp [size, first]

end Code

end Covenant
