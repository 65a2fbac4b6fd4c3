import Covenant.Directives
import Covenant.Proofs.Key.Codec
import Covenant.Proofs.Schema
/-!
The policies that directives make.

* `DirectiveArgument.Means`: the policy that an argument stands for;
* `Schema.callPolicy_eq_ok`: a function may be called as the directive says that counts for it;
* `Schema.readPolicy_eq_ok`: a record may be read as its directives and its marked fields say;
* `Policy.Refers`: a policy that refers only to what a record and its schema have, as all policies of
  calls and readers do.
-/

namespace Covenant

/-- The policy that an argument of a directive of a record stands for. -/
inductive DirectiveArgument.Means (schema : Schema) (this : RecordType) :
    DirectiveArgument → Policy → Prop
  | key {text : String} {k : Key} (named : Key.ofLiteral text = .ok k) :
      Means schema this (.key text) (.key k)
  | field {name : String} (held : this.field? name = some .publicKey) :
      Means schema this (.path [name]) (.field name)
  | delegate {name contract delegateField : String} {r : RecordSchema}
      (held : this.field? name = some (.reference contract)) (known : schema.find? contract = some r)
      (marked : r.delegateField = .ok delegateField) :
      Means schema this (.path [name]) (.delegate name contract delegateField)

/-- A policy that refers only to what a record and its schema have. -/
inductive Policy.Refers (schema : Schema) (this : RecordType) : Policy → Prop
  | anyone : Refers schema this .anyone
  | denied : Refers schema this .denied
  | field {name : String} (held : this.field? name = some .publicKey) :
      Refers schema this (.field name)
  | delegate {name contract delegateField : String} {r : RecordSchema}
      (held : this.field? name = some (.reference contract)) (known : schema.find? contract = some r)
      (marked : r.delegateField = .ok delegateField) :
      Refers schema this (.delegate name contract delegateField)
  | key {k : Key} (point : k.IsPoint) : Refers schema this (.key k)
  | anyOf {policies : List Policy} (each : ∀ p ∈ policies, Refers schema this p) :
      Refers schema this (.anyOf policies)

theorem DirectiveArgument.Means.refers {schema : Schema} {this : RecordType}
    {a : DirectiveArgument} {p : Policy} (h : a.Means schema this p) : p.Refers schema this := by
  cases h with
  | key named => exact .key (Key.isPoint_of_ofLiteral named)
  | field held => exact .field held
  | delegate held known marked => exact .delegate held known marked

/-- The delegate field of a record is a field that is declared in it. -/
theorem RecordSchema.exists_of_delegateField {r : RecordSchema} {name : String}
    (h : r.delegateField = .ok name) : ∃ f ∈ r.declaration.fields, f.name = name := by
  unfold delegateField at h
  split at h
  next f one =>
    cases h
    have here : f ∈ r.declaration.fields.filter fun f => Directive.has f.directives "delegate" := by
      rw [one]
      exact List.mem_singleton_self f
    exact ⟨f, (List.mem_filter.mp here).1, rfl⟩
  next => cases h

theorem Policy.refers_combine {schema : Schema} {this : RecordType} {policies : List Policy}
    (each : ∀ p ∈ policies, p.Refers schema this) : (combine policies).Refers schema this := by
  unfold combine
  split
  · exact .anyone
  · split
    · exact .denied
    · exact each _ (List.mem_singleton_self _)
    · exact .anyOf each

namespace Schema

variable {schema : Schema} {record : RecordSchema}

theorem record_eq_ok {name : String} {r : RecordSchema} :
    schema.record name = .ok r ↔ schema.find? name = some r := by
  unfold Schema.record
  cases schema.find? name <;> simp [CompileError.throwGlobal]

theorem means_of_policyOf {line : Nat} {a : DirectiveArgument} {p : Policy}
    (h : schema.policyOf record line a = .ok p) : a.Means schema record.type p := by
  unfold policyOf at h
  split at h
  next text =>
    split at h
    next k named =>
      cases h
      exact .key named
    next => cases h
  next name =>
    split at h
    next => cases h
    next held =>
      cases h
      exact .field held
    next contract held =>
      obtain ⟨r, hr, h⟩ := bind_eq_ok.mp h
      obtain ⟨delegateField, marked, h⟩ := bind_eq_ok.mp h
      obtain rfl := pure_eq_ok.mp h
      have known := record_eq_ok.mp hr
      rw [(mem_of_find? known).2]
      exact .delegate held known marked
    next => cases h
  next => cases h

/-- The policies of a directive are those of its arguments; without any it allows everybody. -/
theorem policiesOf_eq_ok {d : Directive} {policies : List Policy}
    (h : schema.policiesOf record d = .ok policies) :
    (d.arguments = [] ∧ policies = [.anyone]) ∨ (d.arguments ≠ [] ∧
      List.Forall₂ (DirectiveArgument.Means schema record.type) d.arguments policies) := by
  unfold policiesOf at h
  split at h
  next empty =>
    cases h
    exact .inl ⟨List.isEmpty_iff.mp empty, rfl⟩
  next some =>
    exact .inr ⟨fun none => some (List.isEmpty_iff.mpr none),
      (mapM_eq_ok.mp h).imp fun a p hp => means_of_policyOf hp⟩

theorem refers_of_policiesOf {d : Directive} {policies : List Policy}
    (h : schema.policiesOf record d = .ok policies) :
    ∀ p ∈ policies, p.Refers schema record.type := by
  rcases policiesOf_eq_ok h with ⟨-, rfl⟩ | ⟨-, all⟩
  · exact fun p hp => List.mem_singleton.mp hp ▸ .anyone
  · intro p hp
    obtain ⟨a, -, means⟩ := exists_of_forall₂ all hp
    exact means.refers

/-- The directive that says who may call a function: its own one, else that of its record. -/
def callDirective? (record : RecordSchema) (function : FunctionDecl) : Option Directive :=
  (function.directives.find? fun d => d.name == "call").or
    (record.declaration.directives.find? fun d => d.name == "call")

theorem find?_of_findOne {directives : List Directive} {name : String} {found : Option Directive}
    (h : Directive.findOne directives name = .ok found) :
    directives.find? (fun d => d.name == name) = found := by
  unfold Directive.findOne at h
  split at h
  · cases h
  · cases h
    rw [List.head?_filter]

/-- Who may call a function other than the constructor. -/
theorem callPolicy_eq_ok {function : FunctionDecl} {policy : Policy}
    (other : function.isConstructor = false) (h : schema.callPolicy record function = .ok policy) :
    (callDirective? record function = none ∧ policy = .denied) ∨
      ∃ d policies, callDirective? record function = some d ∧
        schema.policiesOf record d = .ok policies ∧ policy = .combine policies := by
  unfold callPolicy at h
  rw [other, if_neg Bool.false_ne_true] at h
  obtain ⟨own, ho, h⟩ := bind_eq_ok.mp h
  have own' := find?_of_findOne ho
  have here : ∀ d, callDirective? record function = some d →
      (schema.policiesOf record d >>= fun policies => pure (.combine policies)) = .ok policy →
      ∃ d policies, callDirective? record function = some d ∧
        schema.policiesOf record d = .ok policies ∧ policy = .combine policies := by
    intro d hd h
    obtain ⟨policies, hp, h⟩ := bind_eq_ok.mp h
    exact ⟨d, policies, hd, hp, (pure_eq_ok.mp h).symm⟩
  cases own with
  | some d => exact .inr (here d (by rw [callDirective?, own', Option.some_or]) h)
  | none =>
    obtain ⟨found, hf, h⟩ := bind_eq_ok.mp h
    have effective : callDirective? record function = found := by
      rw [callDirective?, own', Option.none_or, find?_of_findOne hf]
    cases found with
    | none => exact .inl ⟨effective, (pure_eq_ok.mp h).symm⟩
    | some d => exact .inr (here d effective h)

theorem refers_of_callPolicy {function : FunctionDecl} {policy : Policy}
    (h : schema.callPolicy record function = .ok policy) : policy.Refers schema record.type := by
  cases other : function.isConstructor with
  | true =>
    rw [callPolicy, other, if_pos rfl] at h
    obtain rfl := pure_eq_ok.mp h
    exact .anyone
  | false =>
    rcases callPolicy_eq_ok other h with ⟨-, rfl⟩ | ⟨d, policies, -, hp, rfl⟩
    · exact .denied
    · exact Policy.refers_combine (refers_of_policiesOf hp)

def readerFields (record : RecordSchema) : List FieldDecl :=
  record.declaration.fields.filter fun f => Directive.has f.directives "read"

/-- Who may read a record: everybody if it is public, those whom its directive names, and those whom its
marked fields name. -/
theorem readPolicy_eq_ok {policy : Policy} (h : schema.readPolicy record = .ok policy) :
    ∃ named marked, policy = .combine
        ((if Directive.has record.declaration.directives "public" then [.anyone] else []) ++ named ++ marked) ∧
      (match record.declaration.directives.find? fun d => d.name == "read" with
        | none => named = []
        | some d => schema.policiesOf record d = .ok named) ∧
      List.Forall₂ (DirectiveArgument.Means schema record.type)
        ((readerFields record).map fun f => .path [f.name]) marked := by
  obtain ⟨unconditional, hu, h⟩ := bind_eq_ok.mp h
  obtain ⟨reading, hr, h⟩ := bind_eq_ok.mp h
  have isPublic : Directive.has record.declaration.directives "public" = unconditional.isSome := by
    rw [← find?_of_findOne hu, List.isSome_find?]
    rfl
  have finish : ∀ named : List Policy,
      (do
        let marked ← schema.readerPolicies record
        return Policy.combine ((if Directive.has record.declaration.directives "public" then [Policy.anyone]
          else []) ++ named ++ marked)) = .ok policy →
      ∃ marked, policy = .combine ((if Directive.has record.declaration.directives "public" then [.anyone]
          else []) ++ named ++ marked) ∧
        List.Forall₂ (DirectiveArgument.Means schema record.type)
          ((readerFields record).map fun f => .path [f.name]) marked := by
    intro named h
    obtain ⟨marked, hm, h⟩ := bind_eq_ok.mp h
    refine ⟨marked, (pure_eq_ok.mp h).symm, List.forall₂_map_left_iff.mpr ?_⟩
    exact (mapM_eq_ok.mp hm).imp fun f p hp => means_of_policyOf hp
  rw [isPublic] at finish ⊢
  rw [find?_of_findOne hr]
  cases reading with
  | none =>
    obtain ⟨marked, made, all⟩ := finish [] (by cases unconditional <;> exact h)
    exact ⟨[], marked, made, rfl, all⟩
  | some d =>
    obtain ⟨named, hn, h⟩ := bind_eq_ok.mp h
    obtain ⟨marked, made, all⟩ := finish named (by cases unconditional <;> exact h)
    exact ⟨named, marked, made, hn, all⟩

theorem refers_of_readPolicy {policy : Policy} (h : schema.readPolicy record = .ok policy) :
    policy.Refers schema record.type := by
  obtain ⟨named, marked, rfl, hn, hm⟩ := readPolicy_eq_ok h
  refine Policy.refers_combine (List.forall_mem_append.mpr
    ⟨List.forall_mem_append.mpr ⟨fun p hp => ?_, ?_⟩, fun p hp => ?_⟩)
  · split at hp
    · exact List.mem_singleton.mp hp ▸ .anyone
    · cases hp
  · split at hn
    · rw [hn]
      exact List.forall_mem_nil _
    · exact refers_of_policiesOf hn
  · obtain ⟨a, -, means⟩ := exists_of_forall₂ hm hp
    exact means.refers

end Schema

end Covenant
