import Covenant.Proofs.Compile.Acceptance
import Covenant.Proofs.Compile.Guard
import Covenant.Proofs.Compile.Stretches
/-!
The slots that the code of a function reads.

* `Scope.Visible`: the slots that names stand for at a place in a function;
* `Elaborates.loads`, `Expr.Targets.loads`: the code of an expression reads visible slots only;
* `Stmt.skippable`: the slots of the names that are declared directly as the branch of a condition or the
  body of a loop, which are visible after it whether or not they have been set;
* `Stmt.covered`, `CheckedFunction.covered`: wherever the code of a statement or a function reads a slot,
  it is one of these, one that was visible before, or it has been set on every way to that place.
-/

namespace Covenant

open Code

/-! ## Jumps -/

namespace Code

variable {P Q : Nat → Prop} {a b : Code}

/-- Code that jumps to labels of given numbers only. -/
def Jumps (P : Nat → Prop) (code : Code) : Prop :=
  ∀ i, .instruction i ∈ code → ∀ name, i.jumpTarget? = some name → ∃ k, P k ∧ name = labelName k

@[simp] theorem jumps_nil : Jumps P [] := nofun

@[simp] theorem jumps_append : Jumps P (a ++ b) ↔ Jumps P a ∧ Jumps P b := by
  constructor
  · exact fun h => ⟨fun i hi => h i (List.mem_append_left _ hi), fun i hi => h i (List.mem_append_right _ hi)⟩
  · exact fun h i hi => (List.mem_append.mp hi).elim (h.1 i) (h.2 i)

@[simp] theorem jumps_label {name : String} : Jumps P (.label name :: a) ↔ Jumps P a := by
  simp [Jumps]

@[simp] theorem jumps_op {i : Instruction String} : Jumps P (.op i :: a) ↔
    (∀ name, i.jumpTarget? = some name → ∃ k, P k ∧ name = labelName k) ∧ Jumps P a := by
  simp [Jumps, Line.op]

theorem jumps_to {i : Instruction String} {k : Nat} (target : i.jumpTarget? = some (labelName k)) (h : P k)
    (rest : Jumps P a) : Jumps P (.op i :: a) := by
  refine jumps_op.mpr ⟨fun name hn => ?_, rest⟩
  cases target.symm.trans hn
  exact ⟨k, h, rfl⟩

theorem Jumps.mono (h : Jumps P a) (le : ∀ k, P k → Q k) : Jumps Q a :=
  fun i hi name hn => (h i hi name hn).imp fun k hk => ⟨le k hk.1, hk.2⟩

theorem mem_labelRange {name : String} {n count : Nat} :
    name ∈ labelRange n count ↔ ∃ k, (n ≤ k ∧ k < n + count) ∧ name = labelName k := by
  simp only [labelRange, List.mem_map, List.mem_range'_1, eq_comm]

/-- Code with the labels of a range, and jumps to its own labels only. -/
theorem Labelled.jumps {n count : Nat} (h : Labelled n count a) (ordinary : Ordinary a.labelNames a) :
    Jumps (fun k => n ≤ k ∧ k < n + count) a := by
  intro i hi name hn
  exact mem_labelRange.mp (h.mem_iff.mp ((ordinary i hi).2.2 name hn))

theorem Labelled.bypasses {n count : Nat} (h : Labelled n count b) (jumps : Jumps P a)
    (outside : ∀ k, P k → k < n ∨ n + count ≤ k) : Bypasses a b := by
  intro i hi name hn here
  obtain ⟨k, hk, rfl⟩ := jumps i hi name hn
  obtain ⟨k', inside, same⟩ := mem_labelRange.mp (h.mem_iff.mp here)
  obtain rfl := labelName_injective same
  have := outside k hk
  omega

end Code

theorem Term.jumps_code (n : Nat) (t : Term) : Jumps (fun k => n ≤ k ∧ k < n + t.labels) (t.code n) :=
  (t.labelled_code n).jumps (t.ordinary_code n (List.Subset.refl _))

theorem Action.jumps_code (n : Nat) (a : Action) : Jumps (fun k => n ≤ k ∧ k < n + a.labels) (a.code n) :=
  (a.labelled_code n).jumps (a.ordinary_code n (List.Subset.refl _))

/-! ## Expressions -/

/-- The slots that names stand for at a place. -/
def Scope.Visible (s : Scope) (k : Nat) : Prop := ∃ block ∈ s.blocks, ∃ name, (name, k) ∈ block

theorem Scope.visible_of_lookup {s : Scope} {name : String} {k : Nat} (h : s.lookup? name = some k) :
    s.Visible k := by
  obtain ⟨block, hb, found⟩ := List.exists_of_findSome?_eq_some h
  exact ⟨block, hb, name, mem_of_lookup found⟩

section Loads

variable {S : Nat → Prop}

theorem Term.loads_codeOfItems {items : List Term} (each : ∀ t ∈ items, ∀ n, Loads S (t.code n)) (n : Nat) :
    Loads S (codeOfItems n items) := by
  induction items generalizing n with
  | nil => exact loads_nil
  | cons t rest ih =>
    rw [List.forall_mem_cons] at each
    exact loads_append.mpr ⟨each.1 n, ih each.2 _⟩

theorem IsCondition.loads {t c : Term} {type : Ty} (h : IsCondition t type c)
    (loads : ∀ n, Loads S (t.code n)) (n : Nat) : Loads S (c.code n) := by
  cases h with
  | boolean => exact loads n
  | truth => simp [Term.code, loads n]

theorem Operates.loads {op : BinaryOp} {a b t : Term} {type type' : Ty} (h : Operates op a b type t type')
    (left : ∀ n, Loads S (a.code n)) (right : ∀ n, Loads S (b.code n)) (n : Nat) : Loads S (t.code n) := by
  cases h <;> simp [Term.code, left, right]

theorem literal_loads {expected : Option Ty} {negative : Bool} {text : String} {line : Nat} {t : Term}
    {type : Ty} (h : Expr.literal expected negative text line = .ok (.value t type)) (n : Nat) :
    Loads S (t.code n) := by
  obtain ⟨same, -, -⟩ := Expr.literalOf_eq_ok (Expr.literal_eq_literalOf .. ▸ h)
  cases same
  simp [Term.code]

/-- The code of an expression reads visible slots only. -/
theorem Elaborates.loads {s : Scope} {expected : Option Ty} {e : Expr} {t : Term} {type : Ty}
    (h : Elaborates s expected e t type) : ∀ n, Loads s.Visible (t.code n) := by
  induction h with
  | number h | negative h => exact literal_loads h
  | string | boolean | field | caller => simp [Term.code]
  | name _ found => simp [Term.code, Scope.visible_of_lookup found]
  | items length _ ih =>
    intro n
    refine loads_append.mpr ⟨Term.loads_codeOfItems (fun t ht => ?_) n, by simp⟩
    obtain ⟨e, he⟩ := exists_beside length ht
    exact ih e t he
  | itemsOfFirst _ _ length _ head ih =>
    intro n
    refine loads_append.mpr
      ⟨Term.loads_codeOfItems (List.forall_mem_cons.mpr ⟨head, fun t ht => ?_⟩) n, by simp⟩
    obtain ⟨e, he⟩ := exists_beside length ht
    exact ih e t he
  | arraySize _ _ _ ih | textSize _ _ _ ih | referenced _ _ _ _ _ ih | member _ _ _ _ ih
  | negate _ _ _ ih => simp [Term.code, ih]
  | element _ _ _ whole place => simp [Term.code, whole, place]
  | indexOf _ _ whole item | includes _ _ whole item => simp [Term.code, whole, item]
  | not _ condition ih => simp [Term.code, condition.loads ih]
  | both _ condition _ condition' ih ih' | either _ condition _ condition' ih ih' =>
    simp [Term.code, condition.loads ih, condition'.loads ih']
  | ofLeft _ _ _ _ operates ih ih' => exact operates.loads ih ih'
  | ofRight _ _ _ _ _ operates ih ih' => exact operates.loads ih' ih
  | ofLiterals _ _ _ _ _ _ operates ih ih' => exact operates.loads ih ih'

/-- The code that replaces the value at the end of a path reads what its parts read. -/
theorem Term.loads_codeAlong {read value : Term} {path : List PathStep} (whole : ∀ n, Loads S (read.code n))
    (places : ∀ place, .element place ∈ path → ∀ n, Loads S (place.code n))
    (item : ∀ n, Loads S (value.code n)) (n : Nat) : Loads S (codeAlong n read value path) := by
  induction path generalizing n read with
  | nil => exact item n
  | cons step rest ih =>
    have later := fun place h => places place (List.mem_cons_of_mem _ h)
    cases step with
    | member name =>
      have inner (n : Nat) : Loads S (codeAlong n (.member read name) value rest) :=
        ih (fun n => by simp [code, whole]) later n
      simp [codeAlong, whole, inner]
    | element place =>
      have first := places place List.mem_cons_self
      have inner (n : Nat) : Loads S (codeAlong n (.element read place) value rest) :=
        ih (fun n => by simp [code, whole, first]) later n
      simp [codeAlong, whole, first, inner]

/-- A target whose parts read given slots only. -/
structure Expr.Target.Loads (S : Nat → Prop) (target : Expr.Target) : Prop where
  root : ∀ n, Code.Loads S (target.root.read.code n)
  places : ∀ place, .element place ∈ target.path → ∀ n, Code.Loads S (place.code n)
  read : ∀ n, Code.Loads S (target.read.code n)

theorem Expr.Targets.loads {s : Scope} {e : Expr} {target : Target} (h : e.Targets s target) :
    target.Loads s.Visible := by
  induction h with
  | @name _ _ slot _ found =>
    have read : ∀ n, Code.Loads s.Visible (Term.code n (.slot slot)) :=
      fun n => by simp [Term.code, Scope.visible_of_lookup found]
    exact ⟨read, nofun, read⟩
  | @field word _ _ _ _ =>
    have read : ∀ n, Code.Loads s.Visible (Term.code n (.field word)) := fun n => by simp [Term.code]
    exact ⟨read, nofun, read⟩
  | member _ _ _ _ _ ih =>
    refine ⟨ih.root, fun place hp => ih.places place (by simpa [Target.step] using hp), fun n => ?_⟩
    simp [Target.step, PathStep.read, Term.code, ih.read]
  | @element _ place _ whole p _ _ _ _ index _ ih =>
    refine ⟨ih.root, fun place hp => ?_, fun n => ?_⟩
    · rcases List.mem_append.mp hp with hp | hp
      · exact ih.places place hp
      · cases List.mem_singleton.mp hp
        exact index.loads
    · simp [Target.step, PathStep.read, Term.code, ih.read, index.loads]

theorem Expr.Target.Loads.assign {target : Target} (h : target.Loads S) {value : Term}
    (item : ∀ n, Code.Loads S (value.code n)) (n : Nat) :
    Code.Loads S ((Action.assign target.root target.path value).code n) := by
  rw [Action.code]
  refine loads_append.mpr ⟨Term.loads_codeAlong h.root h.places item n, ?_⟩
  cases target.root <;> simp [Root.store]

theorem Expr.Acts.loads {s : Scope} {e : Expr} {a : Action} (h : e.Acts s a) (n : Nat) :
    Loads s.Visible (a.code n) := by
  cases h with
  | push whole _ value =>
    exact whole.loads.assign (fun n => by simp [Term.code, whole.loads.read, value.loads]) n
  | error value => simp [Action.code, value.loads]

theorem Stmt.loads_of_combined {op : AssignOp} {type : Ty} {old value t : Term} {line : Nat}
    (h : combined op type old value line = .ok t) (before : ∀ n, Loads S (old.code n))
    (item : ∀ n, Loads S (value.code n)) (n : Nat) : Loads S (t.code n) := by
  have computed : ∀ o : Arith, type.onNumbers op.text line (fun p => Term.arith o p old value) = .ok t →
      Loads S (t.code n) := by
    intro o h
    obtain ⟨p, -, -, rfl⟩ := Ty.numeric_of_onNumbers h
    simp [Term.code, before, item]
  cases op with
  | set =>
    cases h
    exact item n
  | add =>
    simp only [combined] at h
    split at h
    next =>
      cases h
      simp [Term.code, before, item]
    next => exact computed .add h
  | sub => exact computed .sub h

theorem Stmt.loads_of_returned {s : Scope} {line : Nat} {value : Option Expr} {t : Option Term}
    (h : returned s line value = .ok t) (n : Nat) : Loads s.Visible ((Action.leave t).code n) := by
  cases value with
  | none =>
    simp only [returned] at h
    split at h
    next =>
      cases h
      simp [Action.code]
    next => cases h
  | some e =>
    simp only [returned] at h
    split at h
    next => cases h
    next =>
      obtain ⟨t, ht, h⟩ := Typed.value_of_termOf h
      obtain rfl := pure_eq_ok.mp h
      simp [Action.code, (Expr.elaborates_of_typed ht).loads]

end Loads

/-! ## Statements -/

namespace Stmt

mutual
/-- How many names a statement declares, each with a slot of its own. -/
def newSlots : Stmt → Nat
  | .block statements _ => newSlotsIn statements
  | .declare _ _ _ _ => 1
  | .ifThen _ yes _ => yes.newSlots
  | .ifElse _ yes no _ => yes.newSlots + no.newSlots
  | .loop _ body _ => body.newSlots
  | .assign _ _ _ _ | .leave _ _ | .evaluate _ _ => 0

def newSlotsIn : List Stmt → Nat
  | [] => 0
  | first :: rest => first.newSlots + newSlotsIn rest
end

/-- The slot of the name that a statement is the declaration of, where `next` is the first free one. -/
def declares? (next : Nat) : Stmt → Option Nat
  | .declare _ _ _ _ => some next
  | _ => none

mutual
/-- The slots of names whose declaration is the branch of a condition or the body of a loop. It may be
skipped, and the name is visible after it. -/
def skippable (next : Nat) : Stmt → List Nat
  | .block statements _ => skippableIn next statements
  | .ifThen _ yes _ => (yes.declares? next).toList ++ yes.skippable next
  | .ifElse _ yes no _ => (yes.declares? next).toList ++ yes.skippable next ++
      ((no.declares? (next + yes.newSlots)).toList ++ no.skippable (next + yes.newSlots))
  | .loop _ body _ => (body.declares? next).toList ++ body.skippable next
  | .declare _ _ _ _ | .assign _ _ _ _ | .leave _ _ | .evaluate _ _ => []

def skippableIn (next : Nat) : List Stmt → List Nat
  | [] => []
  | first :: rest => first.skippable next ++ skippableIn (next + first.newSlots) rest
end

end Stmt

namespace Scope

theorem visible_of_declare {s s' : Scope} {name : String} {type : Ty} {line index : Nat}
    (h : s.declare name type line = .ok (index, s')) :
    index = s.slots.length ∧ ∀ k, s'.Visible k → s.Visible k ∨ k = s.slots.length := by
  unfold declare at h
  dsimp only at h
  split at h
  · cases h
  · cases h
    refine ⟨rfl, fun k ⟨block, hb, name', hk⟩ => ?_⟩
    rcases List.mem_cons.mp hb with rfl | hb
    · rcases List.mem_cons.mp hk with same | hk
      · exact .inr (Prod.mk.inj same).2
      · cases hs : s.blocks with
        | nil =>
          rw [hs] at hk
          cases hk
        | cons b rest =>
          rw [hs] at hk
          exact .inl ⟨b, hs ▸ List.mem_cons_self, name', hk⟩
    · exact .inl ⟨block, List.mem_of_mem_tail hb, name', hk⟩

@[simp] theorem visible_inner {s : Scope} {k : Nat} : s.inner.Visible k ↔ s.Visible k := by
  simp [Visible, inner]

end Scope

/-! ## The code of statements -/

/-- Code between pieces that read given slots only and do not jump into it. -/
theorem Code.Covered.around {S : Nat → Prop} {a pre post : Code} (h : Covered S a) (before : Loads S pre)
    (after : Loads S post) (enters : Bypasses pre a) (returns : Bypasses post a) :
    Covered S (pre ++ (a ++ post)) := by
  intro front k back same
  rcases append_eq_cons_cases same with ⟨inner, rfl, -⟩ | ⟨front, rfl, within⟩
  · exact .inl (before k (List.mem_append_right _ List.mem_cons_self))
  rcases append_eq_cons_cases within with ⟨inner, rfl, rfl⟩ | ⟨front, rfl, rfl⟩
  · refine (h front k inner rfl).imp_right ?_
    rintro ⟨outer, mid, rest, last, rfl, rfl, first, behind⟩
    exact ⟨pre ++ outer, mid, rest, last ++ post, by simp, by simp, enters.stretch.append first,
      behind.append returns.stretch⟩
  · exact .inl (after k (List.mem_append_right _ List.mem_cons_self))

section Parts

variable {S : Nat → Prop} {condition : Term} {yes no body : Action}

theorem Action.covered_ifThen (reads : ∀ n, Loads S (condition.code n)) (branch : ∀ n, Covered S (yes.code n))
    (n : Nat) : Covered S ((ifThen condition yes).code n) := by
  have enters : Bypasses (condition.code (n + 1) ++ [.op (.jumpIfFalse (labelName n))])
      (yes.code (n + 1 + condition.labels)) := by
    refine (yes.labelled_code _).bypasses (P := fun k => k < n + 1 + condition.labels) ?_ fun k hk => .inl hk
    exact jumps_append.mpr ⟨(condition.jumps_code _).mono fun k hk => hk.2,
      jumps_to rfl (by omega) jumps_nil⟩
  rw [code, List.append_assoc]
  exact (branch _).around (by simp [reads]) (by simp) enters nofun

theorem Action.covered_loop (reads : ∀ n, Loads S (condition.code n)) (inner : ∀ n, Covered S (body.code n))
    (n : Nat) : Covered S ((loop condition body).code n) := by
  have bypasses : ∀ {c : Code}, Jumps (fun k => k < n + 2 + condition.labels) c →
      Bypasses c (body.code (n + 2 + condition.labels)) :=
    fun jumps => (body.labelled_code _).bypasses jumps fun k hk => .inl hk
  rw [code, List.append_assoc _ (body.code _)]
  refine (inner _).around (by simp [reads]) (by simp) (bypasses ?_) (bypasses ?_)
  · exact jumps_append.mpr ⟨jumps_label.mpr ((condition.jumps_code _).mono fun k hk => hk.2),
      jumps_to rfl (by omega) jumps_nil⟩
  · exact jumps_to rfl (by omega) (jumps_label.mpr jumps_nil)

theorem Action.covered_ifElse (reads : ∀ n, Loads S (condition.code n)) (first : ∀ n, Covered S (yes.code n))
    (second : ∀ n, Covered S (no.code n)) (n : Nat) : Covered S ((ifElse condition yes no).code n) := by
  obtain ⟨m, hm⟩ : ∃ m, m = n + 1 + condition.labels + yes.labels := ⟨_, rfl⟩
  have inYes : ∀ {c : Code}, Jumps (fun k => k < n + 1 + condition.labels ∨ m ≤ k) c →
      Bypasses c (yes.code (n + 1 + condition.labels)) :=
    fun jumps => (yes.labelled_code _).bypasses jumps fun k hk => hk.imp_right (hm ▸ ·)
  have inNo : ∀ {c : Code}, Jumps (fun k => k ≤ m) c → Bypasses c (no.code (m + 1)) :=
    fun jumps => (no.labelled_code _).bypasses jumps fun k hk => .inl (Nat.lt_succ_of_le hk)
  have conditions := condition.jumps_code (n + 1)
  have front : Jumps (fun k => k < n + 1 + condition.labels)
      (condition.code (n + 1) ++ [.op (.jumpIfFalse (labelName n))]) :=
    jumps_append.mpr ⟨conditions.mono fun k hk => hk.2, jumps_to rfl (by omega) jumps_nil⟩
  have middle : Jumps (fun k => k = m) [.op (.jump (labelName m)), .label (labelName n)] :=
    jumps_to rfl rfl (jumps_label.mpr jumps_nil)
  have code_eq : (ifElse condition yes no).code n = (condition.code (n + 1) ++
      [.op (.jumpIfFalse (labelName n))] ++ (yes.code (n + 1 + condition.labels) ++
        [.op (.jump (labelName m)), .label (labelName n)])) ++ no.code (m + 1) ++ [.label (labelName m)] := by
    simp [code, hm]
  have labelled : Labelled n (1 + (condition.labels + yes.labels)) (condition.code (n + 1) ++
      [.op (.jumpIfFalse (labelName n))] ++ (yes.code (n + 1 + condition.labels) ++
        [.op (.jump (labelName m)), .label (labelName n)])) :=
    ((condition.labelled_code (n + 1)).append (yes.labelled_code _)).label.of_names (by simp) rfl
  have yesFirst : Covered S (condition.code (n + 1) ++ [.op (.jumpIfFalse (labelName n))] ++
      (yes.code (n + 1 + condition.labels) ++ [.op (.jump (labelName m)), .label (labelName n)])) :=
    (first _).around (by simp [reads]) (by simp) (inYes (front.mono fun k hk => .inl hk))
      (inYes (middle.mono fun k hk => .inr (Nat.le_of_eq hk.symm)))
  have last : Loads S [.label (labelName m)] := loads_label.mpr loads_nil
  rw [code_eq]
  -- only the label at the end is jumped to from the first branch past the second one
  refine (yesFirst.append (second _) (.inr ?_) (.inr (inNo ?_))).append last.covered (.inr nofun) (.inl last)
  · exact labelled.bypasses (no.jumps_code (m + 1)) fun k hk => .inr (by omega)
  · refine jumps_append.mpr ⟨front.mono fun k hk => by omega, jumps_append.mpr ⟨?_, ?_⟩⟩
    · exact (yes.jumps_code _).mono fun k hk => by omega
    · exact middle.mono fun k hk => Nat.le_of_eq hk

theorem Action.covered_codeOfAll_cons {a : Action} {rest : List Action} (first : ∀ n, Covered S (a.code n))
    (others : ∀ n, Covered S (codeOfAll n rest)) (n : Nat) : Covered S (codeOfAll n (a :: rest)) := by
  refine (first n).append (others _) (.inr ?_) (.inr ?_)
  · exact (a.labelled_code n).bypasses ((Action.sequence rest).jumps_code _) fun k hk => .inr hk.1
  · exact ((Action.sequence rest).labelled_code _).bypasses (a.jumps_code n) fun k hk => .inl hk.2

end Parts

namespace Stmt

/-- What is known of the code of a statement, made in a scope: where it reads a slot, it is a given one
or has been set. -/
structure Settled (S : Nat → Prop) (stmt : Stmt) (s s' : Scope) (a : Action) : Prop where
  covered : ∀ n, Covered S (a.code n)
  slots : s'.slots.length = s.slots.length + stmt.newSlots
  visible : ∀ k, s'.Visible k → S k ∨ stmt.declares? s.slots.length = some k
  stores : ∀ k, stmt.declares? s.slots.length = some k →
    ∀ n, ∃ c, a.code n = c ++ [.op (.storeLocal k)] ∧ Loads S c

theorem settled_of_loads {S : Nat → Prop} {stmt : Stmt} {s : Scope} {a : Action}
    (loads : ∀ n, Loads s.Visible (a.code n)) (visible : ∀ k, s.Visible k → S k) (none : stmt.newSlots = 0)
    (other : ∀ next, stmt.declares? next = Option.none) : Settled S stmt s s a where
  covered n := ((loads n).mono visible).covered
  slots := by rw [none]; rfl
  visible k h := .inl (visible k h)
  stores k h := by rw [other] at h; cases h

theorem settled_declare {S : Nat → Prop} {name : String} {type : Option TypeExpr} {value : Expr} {line : Nat}
    {s s' : Scope} {a : Action} (visible : ∀ k, s.Visible k → S k)
    (h : (declare name type value line).typed s = .ok (a, s')) :
    Settled S (.declare name type value line) s s' a := by
  obtain ⟨t, type', index, loads, declared, rfl⟩ : ∃ t type' index, (∀ n, Loads s.Visible (t.code n)) ∧
      s.declare name type' line = .ok (index, s') ∧ a = .assign (.slot index) [] t := by
    cases type with
    | some written =>
      obtain ⟨type, -, h⟩ := bind_eq_ok.mp h
      obtain ⟨t, ht, h⟩ := Typed.value_of_termOf h
      obtain ⟨⟨index, s''⟩, hd, h⟩ := bind_eq_ok.mp h
      obtain ⟨rfl, rfl⟩ := Prod.mk.inj (pure_eq_ok.mp h)
      exact ⟨t, type, index, (Expr.elaborates_of_typed ht).loads, hd, rfl⟩
    | none =>
      obtain ⟨t, type, ht, h⟩ := Typed.value_of_term h
      obtain ⟨⟨index, s''⟩, hd, h⟩ := bind_eq_ok.mp h
      obtain ⟨rfl, rfl⟩ := Prod.mk.inj (pure_eq_ok.mp h)
      exact ⟨t, type, index, (Expr.elaborates_of_typed ht).loads, hd, rfl⟩
  obtain ⟨rfl, seen⟩ := Scope.visible_of_declare declared
  have reads : ∀ n, Loads S (t.code n) := fun n => (loads n).mono visible
  refine ⟨fun n => Loads.covered (loads_append.mpr ⟨reads n, by simp [Root.store]⟩), ?_, fun k hk => ?_, ?_⟩
  · rw [Scope.slots_of_declare declared, List.length_append]
    rfl
  · exact (seen k hk).imp (visible k) fun same => congrArg some same.symm
  · intro k hk n
    cases hk
    exact ⟨t.code n, rfl, reads n⟩

theorem loads_of_condition {s : Scope} {e : Expr} {t c : Term} {type : Ty}
    (h : e.typed s (some .boolean) = .ok (.value t type)) (hc : IsCondition t type c) (n : Nat) :
    Loads s.Visible (c.code n) :=
  hc.loads (Expr.elaborates_of_typed h).loads n

mutual
/-- The code of a statement reads slots that have been set, or whose setting may be skipped. -/
theorem settled {S : Nat → Prop} : ∀ (stmt : Stmt) {s s' : Scope} {a : Action},
    stmt.typed s = .ok (a, s') → (∀ k, s.Visible k → S k) →
      (∀ k ∈ stmt.skippable s.slots.length, S k) → Settled S stmt s s' a
  | .block statements line, s, s', a, h, visible, skip => by
    obtain ⟨⟨actions, after⟩, ht, h⟩ := bind_eq_ok.mp h
    obtain ⟨rfl, rfl⟩ := Prod.mk.inj (pure_eq_ok.mp h)
    obtain ⟨covered, slots⟩ :=
      settledIn statements ht (fun k hk => visible k (Scope.visible_inner.mp hk)) skip
    exact ⟨covered, slots, fun k hk => .inl (visible k hk), nofun⟩
  | .declare name type value line, s, s', a, h, visible, skip => settled_declare visible h
  | .assign target op value line, s, s', a, h, visible, skip => by
    obtain ⟨whole, hw, h⟩ := bind_eq_ok.mp h
    obtain ⟨t, ht, h⟩ := Typed.value_of_termOf h
    obtain ⟨stored, hs, h⟩ := bind_eq_ok.mp h
    obtain ⟨rfl, rfl⟩ := Prod.mk.inj (pure_eq_ok.mp h)
    have loads := (Expr.targets_of_targeted hw).loads
    exact settled_of_loads
      (loads.assign (loads_of_combined hs loads.read (Expr.elaborates_of_typed ht).loads))
      visible rfl fun _ => rfl
  | .ifThen condition yes line, s, s', a, h, visible, skip => by
    obtain ⟨t, type, c, ht, hc, h⟩ := Typed.value_of_condition h
    obtain ⟨⟨b, s₁⟩, hb, h⟩ := bind_eq_ok.mp h
    obtain ⟨rfl, rfl⟩ := Prod.mk.inj (pure_eq_ok.mp h)
    rw [skippable, List.forall_mem_append] at skip
    obtain ⟨covered, slots, seen, -⟩ := settled yes hb visible skip.2
    refine ⟨Action.covered_ifThen (fun n => (loads_of_condition ht hc n).mono visible) covered, slots,
      fun k hk => .inl ?_, nofun⟩
    exact (seen k hk).elim id fun some => skip.1 k (by simp [some])
  | .ifElse condition yes no line, s, s', a, h, visible, skip => by
    obtain ⟨t, type, c, ht, hc, h⟩ := Typed.value_of_condition h
    obtain ⟨⟨b, s₁⟩, hb, h⟩ := bind_eq_ok.mp h
    obtain ⟨⟨b', s₂⟩, hb', h⟩ := bind_eq_ok.mp h
    obtain ⟨rfl, rfl⟩ := Prod.mk.inj (pure_eq_ok.mp h)
    simp only [skippable, List.forall_mem_append] at skip
    obtain ⟨⟨skip₁, skip₂⟩, skip₃, skip₄⟩ := skip
    obtain ⟨covered, slots, seen, -⟩ := settled yes hb visible skip₂
    rw [← slots] at skip₃ skip₄
    have visible₁ : ∀ k, s₁.Visible k → S k :=
      fun k hk => (seen k hk).elim id fun some => skip₁ k (by simp [some])
    obtain ⟨covered', slots', seen', -⟩ := settled no hb' visible₁ skip₄
    refine ⟨Action.covered_ifElse (fun n => (loads_of_condition ht hc n).mono visible) covered covered', ?_,
      fun k hk => .inl ?_, nofun⟩
    · rw [slots', slots, newSlots, Nat.add_assoc]
    · exact (seen' k hk).elim id fun some => skip₃ k (by simp [some])
  | .loop condition body line, s, s', a, h, visible, skip => by
    obtain ⟨t, type, c, ht, hc, h⟩ := Typed.value_of_condition h
    obtain ⟨⟨b, s₁⟩, hb, h⟩ := bind_eq_ok.mp h
    obtain ⟨rfl, rfl⟩ := Prod.mk.inj (pure_eq_ok.mp h)
    rw [skippable, List.forall_mem_append] at skip
    obtain ⟨covered, slots, seen, -⟩ := settled body hb visible skip.2
    refine ⟨Action.covered_loop (fun n => (loads_of_condition ht hc n).mono visible) covered, slots,
      fun k hk => .inl ?_, nofun⟩
    exact (seen k hk).elim id fun some => skip.1 k (by simp [some])
  | .leave value line, s, s', a, h, visible, skip => by
    obtain ⟨r, hr, h⟩ := bind_eq_ok.mp h
    obtain ⟨rfl, rfl⟩ := Prod.mk.inj (pure_eq_ok.mp h)
    exact settled_of_loads (loads_of_returned hr) visible rfl fun _ => rfl
  | .evaluate value line, s, s', a, h, visible, skip => by
    obtain ⟨r, hr, h⟩ := bind_eq_ok.mp h
    cases r with
    | value t type =>
      obtain ⟨rfl, rfl⟩ := Prod.mk.inj (pure_eq_ok.mp h)
      have loads := (Expr.elaborates_of_typed hr).loads
      exact settled_of_loads (fun n => by simp [Action.code, loads]) visible rfl fun _ => rfl
    | effect action =>
      obtain ⟨rfl, rfl⟩ := Prod.mk.inj (pure_eq_ok.mp h)
      exact settled_of_loads (Expr.acts_of_typed hr).loads visible rfl fun _ => rfl

theorem settledIn {S : Nat → Prop} : ∀ (statements : List Stmt) {s s' : Scope} {actions : List Action},
    typedAll s statements = .ok (actions, s') → (∀ k, s.Visible k → S k) →
      (∀ k ∈ skippableIn s.slots.length statements, S k) →
      (∀ n, Covered S (Action.codeOfAll n actions)) ∧
        s'.slots.length = s.slots.length + newSlotsIn statements
  | [], s, s', actions, h, visible, skip => by
    obtain ⟨rfl, rfl⟩ := Prod.mk.inj (pure_eq_ok.mp h)
    exact ⟨fun n => loads_nil.covered, rfl⟩
  | first :: rest, s, s', actions, h, visible, skip => by
    obtain ⟨⟨a, s₁⟩, ha, h⟩ := bind_eq_ok.mp h
    obtain ⟨⟨as, s₂⟩, has, h⟩ := bind_eq_ok.mp h
    obtain ⟨rfl, rfl⟩ := Prod.mk.inj (pure_eq_ok.mp h)
    rw [skippableIn, List.forall_mem_append] at skip
    obtain ⟨covered, slots, seen, stores⟩ := settled first ha visible skip.1
    rw [← slots] at skip
    have total : ∀ {m}, m = s₁.slots.length + newSlotsIn rest →
        m = s.slots.length + newSlotsIn (first :: rest) := by
      rintro m rfl
      rw [slots, newSlotsIn, Nat.add_assoc]
    cases declares : first.declares? s.slots.length with
    | none =>
      rw [declares] at seen
      obtain ⟨others, slots'⟩ := settledIn rest has (fun k hk => (seen k hk).resolve_right nofun) skip.2
      exact ⟨Action.covered_codeOfAll_cons covered others, total slots'⟩
    | some k =>
      rw [declares] at seen
      obtain ⟨others, slots'⟩ := settledIn (S := fun j => S j ∨ j = k) rest has
        (fun j hj => (seen j hj).imp_right fun h => (Option.some.inj h).symm) fun j hj => .inl (skip.2 j hj)
      refine ⟨fun n => ?_, total slots'⟩
      obtain ⟨c, code, loads⟩ := stores k declares n
      have jumps := a.jumps_code n
      rw [code, jumps_append] at jumps
      rw [Action.codeOfAll, code, List.append_assoc, List.singleton_append]
      refine Covered.store loads (others _) ?_
      exact ((Action.sequence as).labelled_code _).bypasses jumps.1 fun j hj => .inl hj.2
end

end Stmt

/-! ## Functions -/

namespace Policy

variable {S : Nat → Prop}

mutual
/-- A policy is checked without any slots. -/
theorem loads_code (n : Nat) : ∀ p : Policy, Loads S (p.code n)
  | .anyone | .denied | .field _ | .key _ | .delegate _ _ _ => by simp [code, truth]
  | .anyOf policies => by simp [code, truth, loads_codeOfAll _ _ policies]

theorem loads_codeOfAll (n : Nat) (satisfied : String) :
    ∀ policies : List Policy, Loads S (codeOfAll n satisfied policies)
  | [] => loads_nil
  | p :: rest => by simp [codeOfAll, loads_code n p, loads_codeOfAll _ satisfied rest]
end

theorem jumps_code (n : Nat) (p : Policy) : Jumps (fun k => n ≤ k ∧ k < n + p.labels) (p.code n) :=
  (p.labelled_code n).jumps (p.ordinary_code n (List.Subset.refl _))

end Policy

theorem Scope.visible_of_declareAll {s s' : Scope} {parameters : List (String × Ty)}
    (h : Schema.declareAll s parameters = .ok s') :
    s'.slots.length = s.slots.length + parameters.length ∧
      ∀ k, s'.Visible k → s.Visible k ∨ k < s'.slots.length := by
  induction parameters generalizing s with
  | nil =>
    obtain rfl := pure_eq_ok.mp h
    exact ⟨rfl, fun k => .inl⟩
  | cons p rest ih =>
    obtain ⟨⟨index, s₁⟩, hd, h⟩ := bind_eq_ok.mp h
    obtain ⟨rfl, seen⟩ := visible_of_declare hd
    obtain ⟨length, others⟩ := ih h
    rw [slots_of_declare hd, List.length_append, List.length_singleton] at length
    refine ⟨by rw [length, List.length_cons]; omega, fun k hk => ?_⟩
    rcases others k hk with hk | few
    · exact (seen k hk).imp_right fun same => by omega
    · exact .inr few

namespace CheckedFunction

variable {S : Nat → Prop} {f : CheckedFunction}

theorem loads_guard : Loads S f.guard := by
  rcases f.guard_cases with ⟨none, -⟩ | some
  · simp [none]
  · simp [some, f.policy.loads_code]

theorem jumps_guard : Jumps (· < f.guardLabels) f.guard := by
  unfold guard guardLabels
  split
  · exact jumps_nil
  · refine jumps_append.mpr ⟨(f.policy.jumps_code 1).mono fun k hk => hk.2, ?_⟩
    exact jumps_to rfl (by omega) (jumps_op.mpr ⟨nofun, jumps_label.mpr jumps_nil⟩)

theorem ending_cases (f : CheckedFunction) : f.ending = [.op .leave] ∨
    ∃ message, f.ending = [.op (.push (.primitive .string) message), .op .abort] := by
  unfold ending
  split
  · exact .inl rfl
  · exact .inr ⟨_, rfl⟩

/-- Nothing but the body of a function reads slots. -/
theorem covered_of_body (body : ∀ n, Covered S (f.body.code n)) : Covered S f.code := by
  rw [code_eq]
  refine (body _).around loads_guard ?_ ((f.body.labelled_code _).bypasses jumps_guard fun k hk => .inl hk) ?_
  · rcases f.ending_cases with leave | ⟨message, abort⟩
    · simp [leave]
    · simp [abort]
  · rcases f.ending_cases with leave | ⟨message, abort⟩
    · simp [leave, Bypasses, Line.op, Instruction.jumpTarget?]
    · simp [abort, Bypasses, Line.op, Instruction.jumpTarget?]

/-- The code of a function reads a slot only if that belongs to a parameter, has been set, or is the slot
of a name whose declaration may be skipped. -/
theorem covered {schema : Schema} {record : RecordSchema} {declaration : FunctionDecl}
    (h : schema.check record declaration = .ok f) : Covered (fun k => k < f.parameters.length ∨
      k ∈ declaration.body.skippable f.parameters.length) f.code := by
  obtain ⟨parameters, -, h⟩ := bind_eq_ok.mp h
  obtain ⟨result, -, h⟩ := bind_eq_ok.mp h
  obtain ⟨policy, -, h⟩ := bind_eq_ok.mp h
  obtain ⟨scope, hd, h⟩ := bind_eq_ok.mp h
  obtain ⟨⟨body, last⟩, hb, h⟩ := bind_eq_ok.mp h
  obtain rfl := pure_eq_ok.mp h
  obtain ⟨length, seen⟩ := Scope.visible_of_declareAll hd
  rw [List.length_nil, Nat.zero_add] at length
  have visible : ∀ k, scope.Visible k → k < parameters.length := by
    intro k hk
    rcases seen k hk with ⟨block, hb, name, hk⟩ | few
    · rw [List.mem_singleton.mp hb] at hk
      cases hk
    · exact length ▸ few
  exact covered_of_body (Stmt.settled declaration.body hb (fun k hk => .inl (visible k hk))
    fun k hk => .inr (length ▸ hk)).covered

end CheckedFunction

end Covenant
