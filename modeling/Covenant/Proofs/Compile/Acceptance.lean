import Covenant.Proofs.Compile.Description
import Covenant.Proofs.Compile.Lines
import Covenant.Proofs.Compile.Typing
/-!
Code that is emitted is accepted.

* `CheckedFunction.Sound`: what type checking has found out about a function;
* `Code.exists_link`: proper, balanced code with labels of its own that ends by leaving is linked;
* `compiled_code_is_accepted`: what is compiled from source text passes all checks of read code.
-/

namespace Covenant

open Code

/-! ## Checked functions -/

structure CheckedFunction.Sound (schema : Schema) (record : RecordSchema) (f : CheckedFunction) :
    Prop where
  named : Layout.Named ⟨schema, record.type, f.slots⟩
  body : f.body.WellTyped ⟨schema, record.type, f.slots⟩ f.result
  parameters : f.parameters.map Prod.snd <+: f.slots
  distinct : ∀ p ∈ f.parameters, p.2.Distinct
  result : ∀ type, f.result = some type → type.Distinct
  policy : f.policy.Refers schema record.type

namespace Scope

theorem slots_of_declare {s s' : Scope} {name : String} {type : Ty} {line index : Nat}
    (h : s.declare name type line = .ok (index, s')) : s'.slots = s.slots ++ [type] := by
  unfold declare at h
  dsimp only at h
  split at h
  · cases h
  · cases h
    rfl

theorem follows_of_declareAll {s s' : Scope} {parameters : List (String × Ty)} (sound : s.Sound)
    (named : ∀ p ∈ parameters, p.2.Named) (h : Schema.declareAll s parameters = .ok s') :
    s.Follows s' ∧ s'.slots = s.slots ++ parameters.map Prod.snd := by
  induction parameters generalizing s with
  | nil =>
    obtain rfl := pure_eq_ok.mp h
    exact ⟨.refl sound, (List.append_nil _).symm⟩
  | cons p rest ih =>
    obtain ⟨⟨index, s₁⟩, hd, h⟩ := bind_eq_ok.mp h
    rw [List.forall_mem_cons] at named
    obtain ⟨first, -⟩ := follows_of_declare sound named.1 hd
    obtain ⟨others, slots⟩ := ih first.sound named.2 h
    refine ⟨first.trans others, ?_⟩
    rw [slots, slots_of_declare hd, List.append_assoc]
    rfl

end Scope

namespace Schema

theorem layout_named {program : Program} (named : program.Named) {schema : Schema}
    (hs : ofProgram program = .ok schema) {record : RecordSchema} (hr : record ∈ schema) :
    Layout.Named ⟨schema, record.type, []⟩ where
  this := (named_of_ofProgram named hs hr).2
  schema := fun _ h =>
    ⟨(named_of_ofProgram named hs h).1.name.ne_empty, (named_of_ofProgram named hs h).2⟩
  slots := fun _ h => by cases h

/-- Type checking finds that the parts of a function suit each other. -/
theorem sound_of_check {program : Program} (named : program.Named) {schema : Schema}
    (hs : ofProgram program = .ok schema) {record : RecordSchema} (hr : record ∈ schema)
    {function : FunctionDecl} (hf : function ∈ record.declaration.functions) {f : CheckedFunction}
    (h : schema.check record function = .ok f) : f.Sound schema record := by
  obtain ⟨parameters, hp, h⟩ := bind_eq_ok.mp h
  obtain ⟨result, hres, h⟩ := bind_eq_ok.mp h
  obtain ⟨policy, hpol, h⟩ := bind_eq_ok.mp h
  obtain ⟨scope, hd, h⟩ := bind_eq_ok.mp h
  obtain ⟨⟨body, last⟩, hb, h⟩ := bind_eq_ok.mp h
  obtain rfl := pure_eq_ok.mp h
  have layout := layout_named named hs hr
  have function := (named_of_ofProgram named hs hr).1.functions function hf
  have start : Scope.Sound ⟨schema, record.type, result, [], [[]]⟩ := by
    refine ⟨fun block hb p hp => ?_, layout⟩
    rw [List.mem_singleton.mp hb] at hp
    cases hp
  have parameterTypes : ∀ p ∈ parameters, p.2.Named ∧ p.2.Distinct := by
    intro p hm
    obtain ⟨declared, hd, resolved⟩ := exists_of_forall₂ (mapM_eq_ok.mp hp) hm
    obtain ⟨type, ht, resolved⟩ := bind_eq_ok.mp resolved
    obtain rfl := pure_eq_ok.mp resolved
    exact ⟨TypeExpr.resolve_named (function.parameters declared hd).type ht,
      TypeExpr.resolve_distinct declared.type ht⟩
  have resultType : ∀ type, result = some type → type.Named ∧ type.Distinct := by
    rintro type rfl
    rcases optionMapM_eq_ok.mp hres with ⟨-, none⟩ | ⟨t, type', written, same, resolved⟩
    · cases none
    · cases same
      exact ⟨TypeExpr.resolve_named (function.result t written) resolved,
        TypeExpr.resolve_distinct t resolved⟩
  obtain ⟨first, slots⟩ := Scope.follows_of_declareAll start (fun p hm => (parameterTypes p hm).1) hd
  obtain ⟨follows, typed⟩ := Stmt.advances function.body first.sound
    (first.result ▸ fun type h => (resultType type h).1) hb
  have all := first.trans follows
  have whole : last.layout = ⟨schema, record.type, last.slots⟩ := by
    rw [Scope.layout, show last.schema = schema from all.extends'.schema,
      show last.this = record.type from all.extends'.this]
  have parameterSlots : scope.slots <+: last.slots := follows.extends'.slots
  rw [slots, List.nil_append] at parameterSlots
  rw [first.result] at typed
  exact ⟨whole ▸ all.sound.named, whole ▸ typed, parameterSlots,
    fun p hm => (parameterTypes p hm).2, fun type h => (resultType type h).2, refers_of_callPolicy hpol⟩

end Schema

/-! ## Policies -/

/-- The code of a policy refers only to what its record and the schema have. -/
theorem Policy.Refers.proper {l : Layout} (named : l.Named)
    (declared : ∀ r ∈ l.schema, r.declaration.Named) {p : Policy} (h : p.Refers l.schema l.this) :
    ∀ n, Code.Proper l (p.code n) := by
  have truth : ∀ b, (Policy.truth b).Proper l := fun b => IsLiteral.boolean b
  have caller : (Line.op (.loadContext "publicKey")).Proper l := rfl
  have field : ∀ {name : String} {type : Ty}, l.this.field? name = some type →
      (Line.op (.loadThis name)).Proper l :=
    fun held => ⟨(named.this.field held).1, by rw [held]; rfl⟩
  have label := labelName_ne_empty
  induction h with
  | anyone => exact fun n => .one (truth true)
  | denied => exact fun n => .one (truth false)
  | field held => exact fun n => .cons caller (.cons (field held) (.one trivial))
  | key point =>
    exact fun n => .cons caller
      (.cons ⟨Key.toHex_ne_empty _, _, Key.ofHex_toHex point⟩ (.one trivial))
  | delegate held known marked =>
    intro n
    obtain ⟨f, hf, rfl⟩ := RecordSchema.exists_of_delegateField marked
    have delegate := ((declared _ (Schema.mem_of_find? known).1).fields f hf).name.ne_empty
    exact .cons caller (.cons (field held) (.cons trivial (.cons trivial (.cons (label n)
      (.cons ⟨(named.record known).1, _, known⟩ (.cons delegate (.cons trivial
      (.cons (label (n + 1)) (.cons (label n) (.cons trivial (.cons trivial
      (.cons (truth false) (.one (label (n + 1)))))))))))))))
  | @anyOf policies _ ih =>
    intro n
    rw [Policy.code]
    refine .append ?_ (.cons (truth false) (.cons (label (n + 1)) (.cons (label n)
      (.cons (truth true) (.one (label (n + 1)))))))
    have each : ∀ (policies : List Policy), (∀ p ∈ policies, ∀ n, Code.Proper l (p.code n)) →
        ∀ m, Code.Proper l (codeOfAll m (labelName n) policies) := by
      intro policies ih
      induction policies with
      | nil => exact fun m => .nil
      | cons p rest ihs =>
        rw [List.forall_mem_cons] at ih
        exact fun m => .append (.append (ih.1 m) (.one (label n))) (ihs ih.2 _)
    exact each policies ih (n + 2)

namespace CheckedFunction

/-- The code of a sound function refers only to what its layout has. -/
theorem Sound.proper {schema : Schema} {record : RecordSchema} {f : CheckedFunction}
    (sound : f.Sound schema record) (declared : ∀ r ∈ schema, r.declaration.Named) :
    Code.Proper ⟨schema, record.type, f.slots⟩ f.code := by
  have label := labelName_ne_empty 0
  refine .append (.append ?_ (sound.body.proper sound.named _)) ?_
  · unfold guard
    split
    · exact .nil
    · exact .append (sound.policy.proper (l := ⟨schema, record.type, f.slots⟩) sound.named declared 1)
        (.cons label (.cons trivial (.one label)))
  · unfold ending
    split
    · exact .one trivial
    · exact .cons (IsLiteral.string _) (.one trivial)

end CheckedFunction

/-! ## Linking -/

/-- Code of a record and a function with a description made for it is linked when it is proper,
balanced, has no label twice and ends by leaving the function. -/
theorem Code.exists_link {schema : Schema} {record : RecordSchema} {slots : List Ty} {code : Code}
    {abi : Abi} {header : Header} {k : Nat} (proper : Code.Proper ⟨schema, record.type, slots⟩ code)
    (balanced : Balanced [] 0 code k) (nodup : code.labelNames.Nodup)
    (ends : ∃ front last, code = front ++ [.op last] ∧ last.isLast = true)
    (locals : slots.length ≤ header.locals)
    (describes : abi.Describes schema record code) : ∃ linked, code.link abi header = .ok linked := by
  have each : ∀ i, .instruction i ∈ code →
      ∃ j, linkInstruction abi header (marks 0 code).reverse i = .ok j := by
    intro i hi
    refine Instruction.Proper.links (proper _ hi) describes.this locals ?_ fun name hn => ?_
    · rintro contract rfl
      obtain ⟨-, r, known⟩ := proper _ hi
      exact describes.otherType hi known
    · rw [exists_lookup_iff, List.map_reverse, List.mem_reverse, marks_map_fst]
      exact balanced.target_mem hi hn
  obtain ⟨linked, hl⟩ := linkAll_of_forall each
  obtain ⟨front, last, rfl, leaves⟩ := ends
  exact ⟨_, link_of_parts (places_of_nodup nodup) hl
    (checkStack_of_balanced balanced leaves nodup hl)⟩

/-! ## Compiled code -/

/-- What compiling makes: the check of who may read, or a function of the record. -/
theorem Program.cases_of_compile {program : Program} {contract function : String} {c : Compiled}
    (hc : program.compile contract function = .ok c) : ∃ schema record policy,
    Schema.ofProgram program = .ok schema ∧ schema.record contract = .ok record ∧
    schema.readPolicy record = .ok policy ∧ ((function = readAuthName ∧ c = schema.compileReadAuth record policy) ∨
      ∃ declaration f, record.function? function = some declaration ∧
        schema.check record declaration = .ok f ∧ c.code = f.code ∧
        c.abi = schema.describe record f.name f.parameters f.result f.code f.followed f.policy policy) := by
  obtain ⟨schema, hs, h⟩ := bind_eq_ok.mp hc
  obtain ⟨record, hr, h⟩ := bind_eq_ok.mp h
  obtain ⟨-, -, h⟩ := bind_eq_ok.mp h
  obtain ⟨policy, hp, h⟩ := bind_eq_ok.mp h
  refine ⟨schema, record, policy, hs, hr, hp, ?_⟩
  split at h
  next named => exact .inl ⟨named, (pure_eq_ok.mp h).symm⟩
  next =>
    split at h
    next declaration hd =>
      obtain ⟨f, hf, h⟩ := bind_eq_ok.mp h
      obtain rfl := pure_eq_ok.mp h
      exact .inr ⟨declaration, f, hd, hf, rfl, rfl⟩
    next => cases h

/-- What is compiled from source text refers only to what its layout has. -/
theorem Program.proper_of_compile {source : String} {program : Program} {contract function : String}
    {c : Compiled} (hp : Program.read source = .ok program)
    (hc : program.compile contract function = .ok c) : ∃ l, Code.Proper l c.code := by
  have named := Program.named_of_read hp
  obtain ⟨schema, record, policy, hs, hr, hread, made⟩ := Program.cases_of_compile hc
  have declared : ∀ r ∈ schema, r.declaration.Named :=
    fun r h => (Schema.named_of_ofProgram named hs h).1
  obtain ⟨member, -⟩ := Schema.mem_of_find? (Schema.record_eq_ok.mp hr)
  rcases made with ⟨-, rfl⟩ | ⟨declaration, f, hd, hf, code, -⟩
  · exact ⟨⟨schema, record.type, []⟩, .append ((Schema.refers_of_readPolicy hread).proper
      (l := ⟨schema, record.type, []⟩) (Schema.layout_named named hs member) declared 0) (.one trivial)⟩
  · rw [code]
    exact ⟨_, (Schema.sound_of_check named hs member (List.mem_of_find?_eq_some hd) hf).proper declared⟩

/-- What is compiled from source text passes all checks that are made of code that has been read: each
operand suits its instruction, the header agrees with the description, and the code is linked. -/
theorem compiled_code_is_accepted {source : String} {program : Program} {contract function : String}
    {c : Compiled} (hp : Program.read source = .ok program)
    (hc : program.compile contract function = .ok c) :
    (∀ line ∈ c.code, line.IsWritten) ∧ checkHeader c.abi c.header = .ok () ∧
      ∃ linked, c.code.link c.abi c.header = .ok linked := by
  have named := Program.named_of_read hp
  obtain ⟨schema, hs, hc⟩ := bind_eq_ok.mp hc
  obtain ⟨record, hr, hc⟩ := bind_eq_ok.mp hc
  obtain ⟨-, -, hc⟩ := bind_eq_ok.mp hc
  obtain ⟨readPolicy, hread, hc⟩ := bind_eq_ok.mp hc
  obtain ⟨member, -⟩ := Schema.mem_of_find? (Schema.record_eq_ok.mp hr)
  have declared : ∀ r ∈ schema, r.declaration.Named :=
    fun r h => (Schema.named_of_ofProgram named hs h).1
  split at hc
  · -- the check of who may read the record
    cases hc
    have layout := Schema.layout_named named hs member
    have proper : Code.Proper ⟨schema, record.type, []⟩ (readPolicy.code 0 ++ [.op .leaveValue]) :=
      .append ((Schema.refers_of_readPolicy hread).proper (l := ⟨schema, record.type, []⟩) layout
        declared 0) (.one trivial)
    have typed := (Schema.refers_of_readPolicy hread).typed_readAuth
      (l := ⟨schema, record.type, []⟩) fun r h => ⟨_, (Schema.declared_of_ofProgram hs h).2⟩
    have nodup : (labelNames (readPolicy.code 0 ++ [.op .leaveValue])).Nodup :=
      ((Policy.labelled_code 0 readPolicy).op _).nodup
    exact ⟨fun line h => (proper line h).isWritten, by simp [checkHeader, Schema.compileReadAuth,
        Schema.describe],
      exists_link proper typed.balanced nodup ⟨_, _, rfl, rfl⟩ (Nat.le_refl 0) Schema.describes_describe⟩
  · split at hc
    next declaration hd =>
      obtain ⟨f, hf, hc⟩ := bind_eq_ok.mp hc
      obtain rfl := pure_eq_ok.mp hc
      have sound := Schema.sound_of_check named hs member (List.mem_of_find?_eq_some hd) hf
      have proper := sound.proper declared
      have typed := f.typed sound.policy
        (fun r h => ⟨_, (Schema.declared_of_ofProgram hs h).2⟩) sound.body
      refine ⟨fun line h => (proper line h).isWritten, ?_,
        exists_link proper typed.balanced f.nodup_labelNames f.exists_last
          (Nat.le_refl _) Schema.describes_describe⟩
      have enough : ¬ f.slots.length < f.parameters.length :=
        Nat.not_lt.mpr (by simpa using sound.parameters.length_le)
      simp [checkHeader, Schema.describe, enough]
    next => cases hc

def accountSource : String :=
  "contract Bank \x7b @delegate owner: PublicKey; \x7d contract Account \x7b bank: Bank; n: u32; " ++
  "@call(bank) add(k: u32) \x7b while (k > 0 && this.n < 9) \x7b this.n += 1; k -= 1; \x7d \x7d \x7d"

theorem account_is_accepted : ∃ program c, Program.read accountSource = .ok program ∧
    program.compile "Account" "add" = .ok c ∧ (∀ line ∈ c.code, line.IsWritten) ∧
    checkHeader c.abi c.header = .ok () ∧ ∃ linked, c.code.link c.abi c.header = .ok linked := by
  have compiles : (match Program.read accountSource with
      | .ok program => (program.compile "Account" "add").isOk
      | .error _ => false) = true := by decide +kernel
  cases hp : Program.read accountSource with
  | error fault =>
    rw [hp] at compiles
    cases compiles
  | ok program =>
    rw [hp] at compiles
    cases hc : program.compile "Account" "add" with
    | error fault =>
      simp only [hc] at compiles
      cases compiles
    | ok c => exact ⟨program, c, rfl, hc, compiled_code_is_accepted hp hc⟩

end Covenant
