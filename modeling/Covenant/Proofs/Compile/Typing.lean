import Covenant.Compile
import Covenant.Proofs.Code.Typing
import Covenant.Proofs.Directives
/-!
The types on the stack in emitted code: the code of a term puts a value of its type on it, that of an
action leaves it as it was, that of a policy puts a boolean on it.
-/

namespace Covenant

open Code

variable {l : Layout} {result : Option Ty}

/-- A way to put a value of a type on the stack, whatever is around it. -/
def Term.Puts (l : Layout) (result : Option Ty) (t : Term) (type : Ty) : Prop :=
  ∀ (n : Nat) (known : List (String × List Ty)) (st : List Ty),
    Types l result known st (t.code n) (type :: st)

theorem Term.typed_codeOfItems {type : Ty} {items : List Term}
    (each : ∀ t ∈ items, t.Puts l result type) (n : Nat) (known : List (String × List Ty))
    (st : List Ty) :
    Types l result known st (codeOfItems n items) (List.replicate items.length type ++ st) := by
  induction items generalizing n st with
  | nil => exact .nil st
  | cons t rest ih =>
    rw [List.forall_mem_cons] at each
    have deeper : List.replicate (rest.length + 1) type ++ st =
        List.replicate rest.length type ++ type :: st := by
      rw [List.replicate_succ', List.append_assoc, List.singleton_append]
    rw [List.length_cons, deeper]
    exact (each.1 n known st).append (ih each.2 _ (type :: st))

/-- The code of a well-typed term puts a value of its type on the stack. -/
theorem HasType.puts {t : Term} {type : Ty} (typed : HasType l t type) : t.Puts l result type := by
  induction typed with
  | literal h => exact fun n known st => .straight rfl (.literal h)
  | slot h => exact fun n known st => .straight rfl (.loadLocal h)
  | field h => exact fun n known st => .straight rfl (.loadThis h)
  | caller => exact fun n known st => .straight rfl .loadContext
  | member _ found _ ih =>
    intro n known st
    rw [Term.code]
    exact (ih n known st).append (.straight rfl (.getField found))
  | referenced _ record found ih =>
    intro n known st
    rw [Term.code, Term.code]
    exact ((ih n known st).append (.straight rfl (.deref record))).append
      (.straight rfl (.getField found))
  | arraySize _ ih =>
    intro n known st
    rw [Term.code]
    exact (ih n known st).append (.straight rfl .arrayLength)
  | textSize _ ih =>
    intro n known st
    rw [Term.code]
    exact (ih n known st).append (.straight rfl .textLength)
  | not _ ih =>
    intro n known st
    rw [Term.code]
    exact (ih n known st).append (.straight rfl .not)
  | truth _ _ ih =>
    intro n known st
    rw [Term.code]
    exact (ih n known st).append (.straight rfl .truthy)
  | @negate p a signed _ ih =>
    intro n known st
    have numeric : p.isNumeric = true := by cases p <;> first | rfl | cases signed
    rw [Term.code]
    exact (ih n known st).append (.straight rfl (.negate numeric))
  | element _ _ integer ih ih' =>
    intro n known st
    rw [Term.code]
    exact ((ih n known st).append (ih' _ known _)).append (.straight rfl (.arrayGet integer))
  | indexOf _ _ ih ih' =>
    intro n known st
    rw [Term.code]
    exact ((ih n known st).append (ih' _ known _)).append (.straight rfl .arrayIndexOf)
  | includes _ _ ih ih' =>
    intro n known st
    rw [Term.code]
    exact ((ih n known st).append (ih' _ known _)).append (.straight rfl .arrayIncludes)
  | appended _ _ ih ih' =>
    intro n known st
    rw [Term.code]
    exact ((ih n known st).append (ih' _ known _)).append (.straight rfl .arrayPush)
  | join _ _ ih ih' =>
    intro n known st
    rw [Term.code]
    exact ((ih n known st).append (ih' _ known _)).append (.straight rfl .concat)
  | compare suits _ _ ih ih' =>
    intro n known st
    rw [Term.code]
    exact ((ih n known st).append (ih' _ known _)).append (.straight rfl (.compare suits))
  | arith binary numeric _ _ ih ih' =>
    intro n known st
    rw [Term.code]
    exact ((ih n known st).append (ih' _ known _)).append (.straight rfl (.arith binary numeric))
  | array _ ih =>
    intro n known st
    rw [Term.code]
    exact (Term.typed_codeOfItems ih n known st).append (.straight rfl .arrayNew)
  | both _ _ ih ih' =>
    intro n known st
    rw [Term.code]
    refine Leads.labelled ?_ (.nil (.boolean :: st))
    refine ((ih (n + 1) _ st).append ?_).append (ih' _ _ st)
    exact .cons (.straight rfl .dup) (.cons (.branch rfl .jumpIfFalse List.mem_cons_self)
      (.straight rfl .drop))
  | either _ _ ih ih' =>
    intro n known st
    rw [Term.code]
    refine Leads.labelled ?_ (.nil (.boolean :: st))
    refine ((ih (n + 1) _ st).append ?_).append (ih' _ _ st)
    exact .cons (.straight rfl .dup) (.cons (.branch rfl .jumpIfTrue List.mem_cons_self)
      (.straight rfl .drop))

/-- The code that replaces the value at the end of a path puts the whole on the stack. -/
theorem Along.typed {whole type : Ty} {path : List PathStep} (along : Along l whole path type)
    {read value : Term} (hr : HasType l read whole) (hv : HasType l value type) (n : Nat)
    (known : List (String × List Ty)) (st : List Ty) :
    Types l result known st (Term.codeAlong n read value path) (whole :: st) := by
  induction along generalizing n read st with
  | nil type => exact hv.puts n known st
  | member found named _ ih =>
    rw [Term.codeAlong]
    exact ((hr.puts n known st).append (ih (.member hr found named) hv _ _)).append
      (.straight rfl (.setField found))
  | element place integer _ ih =>
    rw [Term.codeAlong]
    exact (((hr.puts n known st).append (place.puts _ known _)).append
      (ih (.element hr place integer) hv _ _)).append (.straight rfl (.arraySet integer))

/-- A way to leave the stack as it was, whatever is around it. -/
def Action.Keeps (l : Layout) (result : Option Ty) (a : Action) : Prop :=
  ∀ (n : Nat) (known : List (String × List Ty)) (st : List Ty),
    Types l result known st (a.code n) st

theorem Action.typed_codeOfAll {actions : List Action} (each : ∀ a ∈ actions, a.Keeps l result)
    (n : Nat) (known : List (String × List Ty)) (st : List Ty) :
    Types l result known st (codeOfAll n actions) st := by
  induction actions generalizing n with
  | nil => exact .nil st
  | cons a rest ih =>
    rw [List.forall_mem_cons] at each
    exact (each.1 n known st).append (ih each.2 _)

/-- The code of a well-typed action leaves the stack as it was. -/
theorem Action.WellTyped.keeps {a : Action} (typed : a.WellTyped l result) : a.Keeps l result := by
  induction typed with
  | sequence _ ih =>
    intro n known st
    rw [Action.code]
    exact typed_codeOfAll ih n known st
  | @assign root path value whole type first along stored =>
    intro n known st
    rw [Action.code]
    refine (along.typed first stored n known st).append ?_
    cases root with
    | slot =>
      cases first with
      | slot held => exact .straight rfl (.storeLocal held)
    | field =>
      cases first with
      | field held => exact .straight rfl (.storeThis held)
  | ifThen test _ ih =>
    intro n known st
    rw [Action.code]
    refine Leads.labelled ?_ (.nil st)
    exact ((test.puts (n + 1) _ st).append (.branch rfl .jumpIfFalse List.mem_cons_self)).append
      (ih _ _ st)
  | @ifElse condition yes no test _ _ ih ih' =>
    intro n known st
    have lines : (Action.ifElse condition yes no).code n =
        (condition.code (n + 1) ++ [.op (.jumpIfFalse (labelName n))] ++
          yes.code (n + 1 + condition.labels) ++
          [.op (.jump (labelName (n + 1 + condition.labels + yes.labels)))] ++
          .label (labelName n) :: no.code (n + 1 + condition.labels + yes.labels + 1)) ++
          .label (labelName (n + 1 + condition.labels + yes.labels)) :: [] := by
      simp [Action.code]
    rw [lines]
    refine .labelled (.labelled ?_ (ih' _ _ st)) (.nil st)
    exact (((test.puts (n + 1) _ st).append (.branch rfl .jumpIfFalse List.mem_cons_self)).append
      (ih _ _ st)).append (.jump .jump (List.mem_cons_of_mem _ List.mem_cons_self) st)
  | @loop condition body test _ ih =>
    intro n known st
    have lines : (Action.loop condition body).code n =
        ([] ++ .label (labelName n) :: (condition.code (n + 2) ++
          [.op (.jumpIfFalse (labelName (n + 1)))] ++ body.code (n + 2 + condition.labels) ++
          [.op (.jump (labelName n))])) ++ .label (labelName (n + 1)) :: [] := by
      simp [Action.code]
    rw [lines]
    refine .labelled (.labelled (.nil st) ?_) (.nil st)
    exact (((test.puts (n + 2) _ st).append
      (.branch rfl .jumpIfFalse (List.mem_cons_of_mem _ List.mem_cons_self))).append
      (ih _ _ st)).append (.jump .jump List.mem_cons_self st)
  | leave h => exact fun n known st => .last rfl (.leave h) st
  | leaveWith h returned =>
    intro n known st
    rw [Action.code]
    exact (returned.puts n known st).append (.last rfl (.leaveValue h) st)
  | abort text =>
    intro n known st
    rw [Action.code]
    exact (text.puts n known st).append (.last rfl .abort st)
  | evaluate evaluated =>
    intro n known st
    rw [Action.code]
    exact (evaluated.puts n known st).append (.straight rfl .drop)

namespace Policy

theorem typed_truth (b : Bool) (known : List (String × List Ty)) (st : List Ty) :
    Types l result known st [truth b] (.boolean :: st) :=
  .straight rfl (.literal (.boolean b))

/-- A way to put a boolean on the stack, whatever is around it. -/
def Puts (l : Layout) (result : Option Ty) (p : Policy) : Prop :=
  ∀ (n : Nat) (known : List (String × List Ty)) (st : List Ty),
    Types l result known st (p.code n) (.boolean :: st)

theorem typed_codeOfAll {policies : List Policy} (each : ∀ p ∈ policies, p.Puts l result) (n : Nat)
    {known : List (String × List Ty)} {st : List Ty} {satisfied : String}
    (here : (satisfied, st) ∈ known) :
    Types l result known st (codeOfAll n satisfied policies) st := by
  induction policies generalizing n with
  | nil => exact .nil st
  | cons p rest ih =>
    rw [List.forall_mem_cons] at each
    exact ((each.1 n known st).append (.branch rfl .jumpIfTrue here)).append (ih each.2 _)

/-- The code of a policy puts a boolean on the stack. -/
theorem Refers.puts {p : Policy} (refers : p.Refers l.schema l.this)
    (declared : ∀ r ∈ l.schema, ∃ records, r.Declared records) : p.Puts l result := by
  induction refers with
  | anyone => exact fun n known st => typed_truth true known st
  | denied => exact fun n known st => typed_truth false known st
  | field held =>
    exact fun n known st => .cons (.straight rfl .loadContext) (.cons (.straight rfl (.loadThis held))
      (.straight rfl .keyMatch))
  | key point =>
    exact fun n known st => .cons (.straight rfl .loadContext) (.cons (.straight rfl (.key point))
      (.straight rfl .keyMatch))
  | @delegate name contract delegateField r held found marked =>
    intro n known st
    obtain ⟨f, hf, rfl⟩ := RecordSchema.exists_of_delegateField marked
    obtain ⟨records, hr⟩ := declared r (Schema.mem_of_find? found).1
    obtain ⟨type, delegate⟩ := hr.field hf
    have lines : (Policy.delegate name contract f.name).code n =
        ([.op (.loadContext "publicKey"), .op (.loadThis name), .op .dup, .op .truthy,
          .op (.jumpIfFalse (labelName n)), .op (.deref contract), .op (.getField f.name),
          .op .keyMatch, .op (.jump (labelName (n + 1)))] ++
          .label (labelName n) :: [.op .drop, .op .drop, truth false]) ++
          .label (labelName (n + 1)) :: [] := rfl
    rw [lines]
    have there : (labelName (n + 1), Ty.boolean :: st) ∈
        (labelName n, .reference contract :: .publicKey :: st) ::
          (labelName (n + 1), Ty.boolean :: st) :: known :=
      List.mem_cons_of_mem _ List.mem_cons_self
    refine Leads.labelled ?_ (.nil (.boolean :: st))
    refine Leads.labelled (b := .reference contract :: .publicKey :: st) ?_ ?_
    · exact .cons (.straight rfl .loadContext) (.cons (.straight rfl (.loadThis held))
        (.cons (.straight rfl .dup) (.cons (.straight rfl .truthy)
        (.cons (.branch rfl .jumpIfFalse List.mem_cons_self) (.cons (.straight rfl (.deref found))
        (.cons (.straight rfl (.getField delegate)) (.cons (.straight rfl .keyMatch)
        (.jump .jump there _))))))))
    · exact .cons (.straight rfl .drop) (.cons (.straight rfl .drop) (typed_truth false _ st))
  | @anyOf policies _ ih =>
    intro n known st
    have lines : (Policy.anyOf policies).code n =
        ((codeOfAll (n + 2) (labelName n) policies ++
          [truth false, .op (.jump (labelName (n + 1)))]) ++ .label (labelName n) :: [truth true]) ++
          .label (labelName (n + 1)) :: [] := by
      simp [code]
    rw [lines]
    have there : (labelName (n + 1), Ty.boolean :: st) ∈
        (labelName n, st) :: (labelName (n + 1), Ty.boolean :: st) :: known :=
      List.mem_cons_of_mem _ List.mem_cons_self
    refine Leads.labelled ?_ (.nil (.boolean :: st))
    refine Leads.labelled (b := st) ?_ (typed_truth true _ st)
    exact .append (typed_codeOfAll ih _ List.mem_cons_self)
      (.cons (typed_truth false _ st) (.jump .jump there st))

end Policy

namespace CheckedFunction

/-- The guard of a function leaves an empty stack to the body. -/
theorem typed_guard {f : CheckedFunction} (policy : f.policy.Puts l result) (st : List Ty) :
    Types l result [] st f.guard st := by
  unfold guard
  split
  · exact .nil st
  · have lines : f.policy.code 1 ++
        [.op (.jumpIfTrue (labelName 0)), .op .abortUnauthorized, .label (labelName 0)] =
        (f.policy.code 1 ++ ([.op (.jumpIfTrue (labelName 0))] ++ [.op .abortUnauthorized])) ++
          .label (labelName 0) :: [] := by
      simp
    rw [lines]
    exact .labelled (.append (policy 1 _ st) (.append (.branch rfl .jumpIfTrue List.mem_cons_self)
      (.last rfl .abortUnauthorized st))) (.nil st)

/-- The code of a function whose parts suit its layout is typed. -/
theorem typed {f : CheckedFunction} (policy : f.policy.Refers l.schema l.this)
    (declared : ∀ r ∈ l.schema, ∃ records, r.Declared records)
    (body : f.body.WellTyped l f.result) : Types l f.result [] [] f.code [] := by
  refine ((typed_guard (policy.puts declared) []).append (body.keeps _ [] [])).append ?_
  unfold ending
  split
  next none => exact .last rfl (.leave none) []
  next => exact .cons (.straight rfl (.literal (.string _))) (.last rfl .abort [])

/-- The last line of a function leaves it. -/
theorem exists_last (f : CheckedFunction) : ∃ front last, f.code = front ++ [.op last] ∧
    last.isLast = true := by
  unfold code ending
  split
  · exact ⟨f.guard ++ f.body.code f.guardLabels, .leave, rfl, rfl⟩
  · exact ⟨_, .abort, (List.append_assoc _ [_] [_]).symm, rfl⟩

end CheckedFunction

/-- The check of who may read a record leaves with a boolean. -/
theorem Policy.Refers.typed_readAuth {p : Policy} (refers : p.Refers l.schema l.this)
    (declared : ∀ r ∈ l.schema, ∃ records, r.Declared records) :
    Types l (some .boolean) [] [] (p.code 0 ++ [.op .leaveValue]) [] :=
  (refers.puts declared 0 [] []).append (.last rfl (.leaveValue rfl) [])

end Covenant
