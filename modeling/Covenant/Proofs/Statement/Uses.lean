import Covenant.Proofs.Statement.Runs
/-!
What a statement uses: the fields of the receiver that it reads or replaces, and the records that it
reaches through references.

* `Expr.uses`, `Stmt.uses`: the uses of expressions and statements, read over the syntax tree;
* `Code.uses`: those of code;
* `Elaborates.uses_eq`: a term uses what its expression uses;
* `Stmt.reflected`: the code of a statement uses what the statement uses. All that it may do besides is
  to store a field that is read.
-/

namespace Covenant

open Line (op)

/-- A use of the receiver or of another record. -/
inductive Use
  /-- takes the value of a field of the receiver -/
  | reads (field : String)
  /-- replaces the value of a field of the receiver as a whole -/
  | sets (field : String)
  /-- looks up the record that a reference stands for -/
  | follows (contract : String)
deriving DecidableEq

/-! ## Uses of source -/

def Ty.contract? : Ty → Option String
  | .reference contract => some contract
  | _ => none

namespace Expr

/-- What access to a field of a value of a type uses: the record itself, where the value refers to one. -/
def access (type : Option Ty) : List Use := (type.bind Ty.contract?).toList.map .follows

mutual
/-- The uses of an expression: each `this.f` in it, and each access to a field through a reference. -/
def uses (s : Scope) : Expr → List Use
  | .number _ _ | .string _ _ | .boolean _ _ | .name _ _ | .this _ => []
  | .member (.this _) word _ => [.reads word]
  | .member object _ _ => uses s object ++ access (typeOf s none object)
  | .index a b _ | .binary _ a b _ => uses s a ++ uses s b
  | .method object _ arguments _ => uses s object ++ usesOfItems s arguments
  | .array items _ | .call _ items _ => usesOfItems s items
  | .unary _ operand _ => uses s operand

def usesOfItems (s : Scope) : List Expr → List Use
  | [] => []
  | e :: rest => uses s e ++ usesOfItems s rest
end

/-- What an assignment uses of its target. Only a plain one to `this.f` replaces a field as a whole; any other
target is read. -/
def usesAsTarget (s : Scope) : AssignOp → Expr → List Use
  | .set, .member (.this _) word _ => [.sets word]
  | _, target => target.uses s

end Expr

namespace Stmt

mutual
/-- The uses of a statement, those of its dead branches too. -/
def uses (s : Scope) : Stmt → List Use
  | .block statements _ => usesOfAll s.inner statements
  | .declare _ _ value _ | .leave (some value) _ | .evaluate value _ => value.uses s
  | .assign target op value _ => target.usesAsTarget s op ++ value.uses s
  | .ifThen condition yes _ => condition.uses s ++ uses s yes
  | .ifElse condition yes no _ => condition.uses s ++ uses s yes ++ uses (after s yes) no
  | .loop condition body _ => condition.uses s ++ uses s body
  | .leave none _ => []

def usesOfAll (s : Scope) : List Stmt → List Use
  | [] => []
  | first :: rest => uses s first ++ usesOfAll (after s first) rest
end

end Stmt

/-! ## Uses of code -/

def Instruction.use? {Target : Type} : Instruction Target → Option Use
  | .loadThis field => some (.reads field)
  | .storeThis field => some (.sets field)
  | .deref contract => some (.follows contract)
  | _ => none

namespace Instruction

variable {Target : Type} {i : Instruction Target}

theorem use?_eq_reads {field : String} : i.use? = some (.reads field) ↔ i = .loadThis field := by
  cases i <;> simp [use?]

theorem use?_eq_follows {contract : String} : i.use? = some (.follows contract) ↔ i = .deref contract := by
  cases i <;> simp [use?]

end Instruction

def Line.use? : Line → Option Use
  | .label _ => none
  | .instruction i => i.use?

namespace Code

def uses (code : Code) : List Use := code.filterMap Line.use?

variable {a b : Code}

@[simp] theorem uses_nil : uses [] = [] := rfl

@[simp] theorem uses_append : uses (a ++ b) = uses a ++ uses b := List.filterMap_append

@[simp] theorem uses_label {name : String} : uses (.label name :: a) = uses a := rfl

@[simp] theorem uses_op {i : Instruction String} : uses (op i :: a) = i.use?.toList ++ uses a := by
  unfold uses
  rw [List.filterMap_cons]
  cases h : i.use? <;> simp [op, Line.use?, h]

end Code

/-! ## Uses of terms -/

namespace Term

mutual
def uses : Term → List Use
  | .literal _ _ | .slot _ | .caller => []
  | .field name => [.reads name]
  | .referenced contract a => a.uses ++ [.follows contract]
  | .member a _ | .arraySize a | .textSize a | .not a | .truth a | .negate _ a => a.uses
  | .element a b | .indexOf a b | .includes a b | .appended a b | .arith _ _ a b | .join a b
  | .compare _ a b | .both a b | .either a b => a.uses ++ b.uses
  | .array items => usesOfItems items

def usesOfItems : List Term → List Use
  | [] => []
  | t :: rest => t.uses ++ usesOfItems rest
end

mutual
/-- The code of a term has its uses, whatever its labels are. -/
@[simp] theorem uses_code (n : Nat) : ∀ t : Term, Code.uses (t.code n) = t.uses
  | .literal _ _ | .slot _ | .field _ | .caller => by simp [code, uses, Instruction.use?]
  | .member a _ | .referenced _ a | .arraySize a | .textSize a | .not a | .truth a | .negate _ a => by
    simp [code, uses, Instruction.use?, uses_code _ a]
  | .element a b | .indexOf a b | .includes a b | .appended a b | .arith _ _ a b | .join a b
  | .compare _ a b | .both a b | .either a b => by
    simp [code, uses, Instruction.use?, uses_code _ a, uses_code _ b]
  | .array items => by simp [code, uses, Instruction.use?, uses_codeOfItems _ items]

theorem uses_codeOfItems (n : Nat) : ∀ items : List Term, Code.uses (codeOfItems n items) = usesOfItems items
  | [] => rfl
  | t :: rest => by simp [codeOfItems, usesOfItems, uses_code _ t, uses_codeOfItems _ rest]
end

theorem uses_code_op (n : Nat) (t : Term) {i : Instruction String} (plain : i.use? = none) :
    Code.uses (t.code n ++ [op i]) = t.uses := by
  simp [plain]

end Term

theorem IsCondition.uses_eq {t c : Term} {type : Ty} (h : IsCondition t type c) : c.uses = t.uses := by
  cases h <;> simp [Term.uses]

theorem Operates.uses_eq {o : BinaryOp} {a b t : Term} {type type' : Ty} (h : Operates o a b type t type') :
    t.uses = a.uses ++ b.uses := by
  cases h <;> simp [Term.uses]

theorem Expr.uses_member {s : Scope} {object : Expr} (other : ∀ own, object ≠ .this own) (word : String)
    (line : Nat) :
    (Expr.member object word line).uses s = object.uses s ++ access (object.typeOf s none) := by
  cases object <;> first | rfl | exact absurd rfl (other _)

theorem Expr.usesAsTarget_member {s : Scope} {object : Expr} (other : ∀ own, object ≠ .this own)
    (o : AssignOp) (word : String) (line : Nat) :
    usesAsTarget s o (.member object word line) = (Expr.member object word line).uses s := by
  cases o <;> cases object <;> first | rfl | exact absurd rfl (other _)

/-- The name of the context is used in no other way. -/
theorem Expr.uses_context {s : Scope} {object : Expr} (context : s.isContext object = true) :
    object.uses s ++ access (object.typeOf s none) = [] := by
  unfold Scope.isContext at context
  split at context
  next =>
    rw [uses, typeOf, Option.isNone_iff_eq_none.mp context]
    rfl
  next => cases context

theorem uses_of_items {s : Scope} {items : List Expr} {terms : List Term}
    (length : items.length = terms.length) (each : ∀ e t, (e, t) ∈ items.zip terms → t.uses = e.uses s) :
    Term.usesOfItems terms = Expr.usesOfItems s items := by
  induction items generalizing terms with
  | nil =>
    obtain rfl := List.eq_nil_of_length_eq_zero length.symm
    rfl
  | cons e rest ih =>
    cases terms with
    | nil => cases length
    | cons t terms =>
      rw [Term.usesOfItems, Expr.usesOfItems, each e t List.mem_cons_self,
        ih (Nat.succ.inj length) fun e' t' h => each e' t' (List.mem_cons_of_mem _ h)]

/-- A term uses what its expression uses: what was only looked at to find a type leaves no trace in it. -/
theorem Elaborates.uses_eq {s : Scope} {expected : Option Ty} {e : Expr} {t : Term} {type : Ty}
    (h : Elaborates s expected e t type) : t.uses = e.uses s := by
  induction h with
  | number h | negative h =>
    rw [(Expr.type_of_literal h).1]
    simp [Term.uses, Expr.uses]
  | string | boolean | name | field => simp [Term.uses, Expr.uses]
  | items length _ ih =>
    rw [Term.uses, Expr.uses]
    exact uses_of_items length ih
  | itemsOfFirst _ _ length _ ih each =>
    rw [Term.uses, Expr.uses, Term.usesOfItems, Expr.usesOfItems, ih, uses_of_items length each]
  | caller context =>
    rw [Expr.uses_member (Scope.ne_this_of_isContext context), Expr.uses_context context, Term.uses]
  | arraySize other _ whole ih | textSize other _ whole ih | member other _ whole _ ih =>
    rw [Expr.uses_member other, whole.typeOf_eq, Term.uses, ih]
    exact (List.append_nil _).symm
  | referenced other _ whole _ _ ih =>
    rw [Expr.uses_member other, whole.typeOf_eq, Term.uses, Term.uses, ih]
    rfl
  | element _ _ _ ih ih' => rw [Term.uses, Expr.uses, ih, ih']
  | indexOf _ _ ih ih' | includes _ _ ih ih' =>
    rw [Term.uses, Expr.uses, Expr.usesOfItems, Expr.usesOfItems, List.append_nil, ih, ih']
  | not _ condition ih => rw [Term.uses, Expr.uses, condition.uses_eq, ih]
  | negate _ _ _ ih => rw [Term.uses, Expr.uses, ih]
  | both _ condition _ condition' ih ih' | either _ condition _ condition' ih ih' =>
    rw [Term.uses, Expr.uses, condition.uses_eq, condition'.uses_eq, ih, ih']
  | ofLeft _ _ _ _ operates ih ih' | ofLiterals _ _ _ _ _ _ operates ih ih' =>
    rw [operates.uses_eq, Expr.uses, ih, ih']
  | ofRight _ _ _ _ _ operates ih ih' => rw [operates.uses_eq, Expr.uses, ih, ih']

/-! ## Targets -/

def PathStep.uses : PathStep → List Use
  | .member _ => []
  | .element place => place.uses

theorem PathStep.uses_read (whole : Term) (step : PathStep) :
    (step.read whole).uses = whole.uses ++ step.uses := by
  cases step <;> simp [read, Term.uses, uses]

namespace Expr

variable {s : Scope} {e : Expr} {target : Target}

theorem Targets.elaborates (h : e.Targets s target) (expected : Option Ty) :
    Elaborates s expected e target.read target.type := by
  induction h generalizing expected with
  | name plain found => exact .name plain found
  | field found => exact .field found
  | member other plain _ struct found ih => exact .member other plain (struct ▸ ih none) found
  | element _ array index integer ih => exact .element (array ▸ ih none) index integer

/-- A target that is read uses its root and the places on its path. -/
theorem Targets.uses_eq (h : e.Targets s target) :
    e.uses s = target.root.read.uses ++ target.path.flatMap PathStep.uses := by
  rw [← (h.elaborates none).uses_eq]
  induction h with
  | name | field => simp [Target.ofRoot]
  | member _ _ _ _ _ ih | element _ _ _ _ ih =>
    simp only [Target.step, PathStep.uses_read, ih]
    simp

end Expr

theorem Term.uses_codeAlong_cons (n : Nat) (read value : Term) (step : PathStep) (rest : List PathStep) :
    ∃ n', Code.uses (codeAlong n read value (step :: rest)) =
      read.uses ++ step.uses ++ Code.uses (codeAlong n' (step.read read) value rest) := by
  cases step with
  | member name =>
    exact ⟨n + read.labels, by simp [codeAlong, Instruction.use?, PathStep.uses, PathStep.read]⟩
  | element place =>
    exact ⟨n + read.labels + place.labels, by
      simp [codeAlong, Instruction.use?, PathStep.uses, PathStep.read]⟩

/-- The code of an assignment reads what a path begins with once for each step, and its places too. -/
theorem Term.mem_uses_codeAlong {u : Use} {value : Term} (path : List PathStep) (n : Nat) (read : Term) :
    u ∈ Code.uses (codeAlong n read value path) ↔
      (path ≠ [] ∧ u ∈ read.uses) ∨ u ∈ path.flatMap PathStep.uses ∨ u ∈ value.uses := by
  induction path generalizing n read with
  | nil => simp [codeAlong]
  | cons step rest ih =>
    obtain ⟨n', same⟩ := uses_codeAlong_cons n read value step rest
    simp only [same, List.mem_append, ih, PathStep.uses_read, List.flatMap_cons, ne_eq, reduceCtorEq,
      not_false_eq_true, true_and]
    grind

/-! ## Statements -/

/-- Code whose uses are `vs` has the uses `us` of its source. Besides, it may store a field that the source
reads: one whose value has been changed in part. -/
structure Use.Reflects (us vs : List Use) : Prop where
  shown : us ⊆ vs
  known : ∀ u ∈ vs, u ∈ us ∨ ∃ field, u = .sets field ∧ .reads field ∈ us

namespace Use.Reflects

variable {us us' vs vs' : List Use}

theorem of_mem_iff (h : ∀ u, u ∈ vs ↔ u ∈ us) : Reflects us vs :=
  ⟨fun u => (h u).mpr, fun u hu => .inl ((h u).mp hu)⟩

theorem refl (us : List Use) : Reflects us us := of_mem_iff fun _ => Iff.rfl

theorem append (h : Reflects us vs) (h' : Reflects us' vs') : Reflects (us ++ us') (vs ++ vs') where
  shown := List.append_subset.mpr ⟨List.subset_append_of_subset_left _ h.shown,
    List.subset_append_of_subset_right _ h'.shown⟩
  known u hu := by
    rcases List.mem_append.mp hu with hu | hu
    · rcases h.known u hu with old | ⟨field, same, read⟩
      · exact .inl (List.mem_append_left _ old)
      · exact .inr ⟨field, same, List.mem_append_left _ read⟩
    · rcases h'.known u hu with old | ⟨field, same, read⟩
      · exact .inl (List.mem_append_right _ old)
      · exact .inr ⟨field, same, List.mem_append_right _ read⟩

end Use.Reflects

namespace Action

variable {s : Scope} {e : Expr} {target : Expr.Target} {value : Term} {us : List Use}

theorem mem_uses_assign {u : Use} {n : Nat} {root : Root} {path : List PathStep} :
    u ∈ Code.uses ((Action.assign root path value).code n) ↔
      ((path ≠ [] ∧ u ∈ root.read.uses) ∨ u ∈ path.flatMap PathStep.uses ∨ u ∈ value.uses) ∨
        root.store.use? = some u := by
  rw [code, Code.uses_append, List.mem_append, Term.mem_uses_codeAlong]
  refine or_congr_right ?_
  cases root <;> simp [Code.uses, Root.store, op, Line.use?, Instruction.use?, eq_comm]

/-- An assignment reads its target if that is a part of the root, or if the value that it stores is made of
the old one. Where the root is a field, it is read too. -/
theorem reflects_assign (n : Nat) (targets : e.Targets s target) (own : us ⊆ value.uses)
    (made : value.uses ⊆ e.uses s ++ us) (old : target.path = [] → e.uses s ⊆ value.uses) :
    Use.Reflects (e.uses s ++ us) (Code.uses ((assign target.root target.path value).code n)) := by
  have parts : ∀ u, u ∈ e.uses s ↔ u ∈ target.root.read.uses ∨ u ∈ target.path.flatMap PathStep.uses :=
    fun u => by rw [targets.uses_eq, List.mem_append]
  refine ⟨fun u hu => mem_uses_assign.mpr (.inl ?_), fun u hu => ?_⟩
  · rcases List.mem_append.mp hu with ofTarget | ofValue
    · by_cases whole : target.path = []
      · exact .inr (.inr (old whole ofTarget))
      · exact ((parts u).mp ofTarget).imp (⟨whole, ·⟩) .inl
    · exact .inr (.inr (own ofValue))
  · rcases mem_uses_assign.mp hu with (⟨-, first⟩ | place | ofValue) | stored
    · exact .inl (List.mem_append_left _ ((parts u).mpr (.inl first)))
    · exact .inl (List.mem_append_left _ ((parts u).mpr (.inr place)))
    · exact .inl (made ofValue)
    · refine .inr ?_
      cases root : target.root with
      | slot index =>
        rw [root] at stored
        cases stored
      | field name =>
        rw [root] at stored
        cases stored
        refine ⟨name, rfl, List.mem_append_left _ ((parts _).mpr (.inl ?_))⟩
        rw [root]
        exact List.mem_singleton_self _

/-- A plain assignment reads its target but where that is a whole. -/
theorem reflects_set (n : Nat) (targets : e.Targets s target) :
    Use.Reflects (e.usesAsTarget s .set ++ value.uses)
      (Code.uses ((assign target.root target.path value).code n)) := by
  cases id targets with
  | name =>
    exact reflects_assign n targets (List.Subset.refl _) (List.Subset.refl _) fun _ => List.nil_subset _
  | field =>
    simp only [code, Expr.Target.ofRoot, Term.codeAlong, Root.store, Code.uses_append, Term.uses_code,
      Code.uses_op, Instruction.use?, Option.toList_some, Code.uses_nil, List.append_nil]
    exact .of_mem_iff fun u => by rw [List.mem_append, List.mem_append, or_comm]; rfl
  | member other =>
    rw [Expr.usesAsTarget_member other]
    exact reflects_assign n targets (List.Subset.refl _) (List.subset_append_right _ _) fun whole =>
      absurd whole (by simp [Expr.Target.step])
  | element =>
    exact reflects_assign n targets (List.Subset.refl _) (List.subset_append_right _ _) fun whole =>
      absurd whole (by simp [Expr.Target.step])

/-- An assignment of a value that is made of the old one reads its target. -/
theorem reflects_made (n : Nat) (targets : e.Targets s target) (made : value.uses = e.uses s ++ us) :
    Use.Reflects (e.uses s ++ us) (Code.uses ((assign target.root target.path value).code n)) := by
  refine reflects_assign n targets ?_ (made ▸ List.Subset.refl _) fun _ => ?_
  · rw [made]
    exact List.subset_append_right _ _
  · rw [made]
    exact List.subset_append_left _ _

end Action

namespace Stmt

/-- The code of the action that a statement is compiled to has the uses of the statement. -/
def Reflected (stmt : Stmt) : Prop :=
  ∀ {s s' a}, typed s stmt = .ok (a, s') → ∀ n, Use.Reflects (stmt.uses s) (Code.uses (a.code n))

variable {line : Nat} {condition : Expr} {yes no body : Stmt}

theorem uses_store (n index : Nat) (value : Term) :
    Code.uses ((Action.assign (.slot index) [] value).code n) = value.uses := by
  simp [Action.code, Term.codeAlong, Root.store, Instruction.use?]

theorem reflected_declare {name : String} {type : Option TypeExpr} {value : Expr} :
    Reflected (.declare name type value line) := by
  intro s s' a h n
  cases type with
  | some written =>
    obtain ⟨type, -, h⟩ := bind_eq_ok.mp h
    obtain ⟨t, ht, h⟩ := Typed.value_of_termOf h
    obtain ⟨⟨index, s''⟩, -, h⟩ := bind_eq_ok.mp h
    obtain ⟨rfl, rfl⟩ := Prod.mk.inj (pure_eq_ok.mp h)
    rw [uses, uses_store, (Expr.elaborates_of_typed ht).uses_eq]
    exact .refl _
  | none =>
    obtain ⟨t, type, ht, h⟩ := Typed.value_of_term h
    obtain ⟨⟨index, s''⟩, -, h⟩ := bind_eq_ok.mp h
    obtain ⟨rfl, rfl⟩ := Prod.mk.inj (pure_eq_ok.mp h)
    rw [uses, uses_store, (Expr.elaborates_of_typed ht).uses_eq]
    exact .refl _

theorem reflected_assign {target value : Expr} {o : AssignOp} : Reflected (.assign target o value line) := by
  intro s s' a h n
  obtain ⟨whole, hw, h⟩ := bind_eq_ok.mp h
  obtain ⟨t, ht, h⟩ := Typed.value_of_termOf h
  obtain ⟨stored, hs, h⟩ := bind_eq_ok.mp h
  obtain ⟨rfl, rfl⟩ := Prod.mk.inj (pure_eq_ok.mp h)
  have targets := Expr.targets_of_targeted hw
  have same := (Expr.elaborates_of_typed ht).uses_eq
  rw [uses, ← same]
  rcases operates_of_combined hs with ⟨plain, rfl⟩ | ⟨o', type', compound, operates⟩
  · obtain rfl : o = .set := by cases o <;> first | rfl | cases plain
    exact Action.reflects_set n targets
  · have compounded : target.usesAsTarget s o = target.uses s := by
      cases o <;> first | rfl | cases compound
    rw [compounded]
    refine Action.reflects_made n targets ?_
    rw [operates.uses_eq, (targets.elaborates none).uses_eq]

theorem reflected_ifThen (first : Reflected yes) : Reflected (.ifThen condition yes line) := by
  intro s s' a h n
  obtain ⟨t, type, c, ht, hc, h⟩ := Typed.value_of_condition h
  obtain ⟨⟨b, s₁⟩, hb, h⟩ := bind_eq_ok.mp h
  obtain ⟨rfl, rfl⟩ := Prod.mk.inj (pure_eq_ok.mp h)
  have test := hc.uses_eq.trans (Expr.elaborates_of_typed ht).uses_eq
  have parts : Code.uses ((Action.ifThen c b).code n) =
      condition.uses s ++ Code.uses (b.code (n + 1 + c.labels)) := by
    simp [Action.code, Instruction.use?, test]
  rw [uses, parts]
  exact (Use.Reflects.refl _).append (first hb _)

theorem reflected_ifElse (first : Reflected yes) (second : Reflected no) :
    Reflected (.ifElse condition yes no line) := by
  intro s s' a h n
  obtain ⟨t, type, c, ht, hc, h⟩ := Typed.value_of_condition h
  obtain ⟨⟨b, s₁⟩, hb, h⟩ := bind_eq_ok.mp h
  obtain ⟨⟨b', s₂⟩, hb', h⟩ := bind_eq_ok.mp h
  obtain ⟨rfl, rfl⟩ := Prod.mk.inj (pure_eq_ok.mp h)
  have test := hc.uses_eq.trans (Expr.elaborates_of_typed ht).uses_eq
  obtain rfl := (yes.is_typed hb).after
  have parts : Code.uses ((Action.ifElse c b b').code n) = condition.uses s ++
      Code.uses (b.code (n + 1 + c.labels)) ++ Code.uses (b'.code (n + 1 + c.labels + b.labels + 1)) := by
    simp [Action.code, Instruction.use?, test]
  rw [uses, parts]
  exact ((Use.Reflects.refl _).append (first hb _)).append (second hb' _)

theorem reflected_loop (first : Reflected body) : Reflected (.loop condition body line) := by
  intro s s' a h n
  obtain ⟨t, type, c, ht, hc, h⟩ := Typed.value_of_condition h
  obtain ⟨⟨b, s₁⟩, hb, h⟩ := bind_eq_ok.mp h
  obtain ⟨rfl, rfl⟩ := Prod.mk.inj (pure_eq_ok.mp h)
  have test := hc.uses_eq.trans (Expr.elaborates_of_typed ht).uses_eq
  have parts : Code.uses ((Action.loop c b).code n) =
      condition.uses s ++ Code.uses (b.code (n + 2 + c.labels)) := by
    simp [Action.code, Instruction.use?, test]
  rw [uses, parts]
  exact (Use.Reflects.refl _).append (first hb _)

theorem reflected_leave {value : Option Expr} : Reflected (.leave value line) := by
  intro s s' a h n
  obtain ⟨r, hr, h⟩ := bind_eq_ok.mp h
  obtain ⟨rfl, rfl⟩ := Prod.mk.inj (pure_eq_ok.mp h)
  cases value with
  | none =>
    simp only [returned] at hr
    split at hr
    next =>
      cases hr
      exact .refl _
    next => cases hr
  | some e =>
    simp only [returned] at hr
    split at hr
    next => cases hr
    next =>
      obtain ⟨t, ht, h⟩ := Typed.value_of_termOf hr
      obtain rfl := pure_eq_ok.mp h
      rw [uses, Action.code, Term.uses_code_op _ _ rfl, (Expr.elaborates_of_typed ht).uses_eq]
      exact .refl _

theorem reflected_evaluate {value : Expr} : Reflected (.evaluate value line) := by
  intro s s' a h n
  obtain ⟨r, hr, h⟩ := bind_eq_ok.mp h
  cases r with
  | value t type =>
    obtain ⟨rfl, rfl⟩ := Prod.mk.inj (pure_eq_ok.mp h)
    rw [uses, Action.code, Term.uses_code_op _ _ rfl, (Expr.elaborates_of_typed hr).uses_eq]
    exact .refl _
  | effect action =>
    obtain ⟨rfl, rfl⟩ := Prod.mk.inj (pure_eq_ok.mp h)
    cases Expr.acts_of_typed hr with
    | @push object argument _ target item _ targets _ typed =>
      rw [uses, Expr.uses, Expr.usesOfItems, Expr.usesOfItems, List.append_nil]
      refine Action.reflects_made n targets ?_
      rw [Term.uses, (targets.elaborates none).uses_eq, typed.uses_eq]
    | error typed =>
      rw [uses, Expr.uses, Expr.usesOfItems, Expr.usesOfItems, List.append_nil, Action.code,
        Term.uses_code_op _ _ rfl, typed.uses_eq]
      exact .refl _

mutual
/-- The code of an accepted statement has the uses of the statement. -/
theorem reflected : ∀ stmt : Stmt, Reflected stmt
  | .block statements _ => fun h n => by
    obtain ⟨⟨actions, s₁⟩, ht, h⟩ := bind_eq_ok.mp h
    obtain ⟨rfl, rfl⟩ := Prod.mk.inj (pure_eq_ok.mp h)
    exact reflectedAll statements ht n
  | .declare _ _ _ _ => reflected_declare
  | .assign _ _ _ _ => reflected_assign
  | .ifThen _ yes _ => reflected_ifThen (reflected yes)
  | .ifElse _ yes no _ => reflected_ifElse (reflected yes) (reflected no)
  | .loop _ body _ => reflected_loop (reflected body)
  | .leave _ _ => reflected_leave
  | .evaluate _ _ => reflected_evaluate

theorem reflectedAll : ∀ (stmts : List Stmt) {s s' : Scope} {actions : List Action},
    typedAll s stmts = .ok (actions, s') → ∀ n,
      Use.Reflects (usesOfAll s stmts) (Code.uses (Action.codeOfAll n actions))
  | [], s, s', actions, h, n => by
    obtain ⟨rfl, rfl⟩ := Prod.mk.inj (pure_eq_ok.mp h)
    exact .refl _
  | first :: rest, s, s', actions, h, n => by
    obtain ⟨⟨a, s₁⟩, ha, h⟩ := bind_eq_ok.mp h
    obtain ⟨⟨as, s₂⟩, has, h⟩ := bind_eq_ok.mp h
    obtain ⟨rfl, rfl⟩ := Prod.mk.inj (pure_eq_ok.mp h)
    obtain rfl := (first.is_typed ha).after
    rw [usesOfAll, Action.codeOfAll, Code.uses_append]
    exact (reflected first ha n).append (reflectedAll rest has _)
end

end Stmt

end Covenant
