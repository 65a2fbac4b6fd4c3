import Covenant.Proofs.Syntax.Names
/-!
The word `constructor` among the members that are read from source text.

A member begins where this word is expected, so it is no name there; after the word `function` it is one.

* `Token.Unreserved`: a token that is not this word as a name, as are all that are read where it is expected;
* `Reader.Ensures`: what a reader gives and which token it leaves, by the token before;
* `RecordDecl.Reserves`, `Program.reserves_of_read`: in a program that a text writes constructors have this
  name, and no field has it.
-/

namespace Covenant

def Token.Unreserved (t : Token) : Prop := t.terminal = .name → t.text ≠ "constructor".toList

theorem Token.unreserved_of_next {expected : List Terminal} {before t : Token} {place place' : SourcePlace}
    (word : .constructor ∈ expected) (h : next expected before place = .ok (t, place')) : t.Unreserved := by
  intro name
  obtain ⟨s, size, found, text⟩ := Token.match?_of_next h name
  rw [text]
  exact ((Lexeme.name_of_match? found).2 (.constructor, "constructor".toList) (by decide) word).symm

def FieldDecl.Unreserved (f : FieldDecl) : Prop := f.name ≠ "constructor"

/-- A function that is called `constructor` if it is one. -/
def FunctionDecl.Reserves (f : FunctionDecl) : Prop := f.isConstructor = true → f.name = "constructor"

/-- A record in which the constructor has its name, and no field has it. -/
structure RecordDecl.Reserves (r : RecordDecl) : Prop where
  fields : ∀ f ∈ r.fields, f.Unreserved
  functions : ∀ f ∈ r.functions, f.Reserves

namespace Reader

/-- What a reader gives, and which token it leaves, by what the token before it is. -/
def Ensures {α : Type} (pre : Token → Prop) (x : Reader α) (post : α → Token → Prop) : Prop :=
  ∀ r : Reading, pre r.token → ∀ a r', x.run r = .ok (a, r') → post a r'.token

def Frees {α : Type} (x : Reader α) : Prop := x.Ensures (fun _ => True) fun _ => Token.Unreserved

variable {α β : Type} {x : Reader α} {f : α → Reader β} {pre : Token → Prop}
  {mid : α → Token → Prop} {post : β → Token → Prop}

namespace Ensures

theorem pure {b : β} (h : ∀ t, pre t → post b t) : Ensures pre (Pure.pure b) post := by
  intro r known b' r' hr
  cases hr
  exact h r.token known

theorem bind (hx : x.Ensures pre mid) (hf : ∀ a, (f a).Ensures (mid a) post) :
    Ensures pre (x >>= f) post := by
  intro r known b r' hr
  rw [StateT.run_bind] at hr
  obtain ⟨⟨a, r₁⟩, ha, hb⟩ := bind_eq_ok.mp hr
  exact hf a r₁ (hx r known a r₁ ha) b r' hb

/-- A piece after which nothing is known. -/
theorem skip (hf : ∀ a, (f a).Ensures (fun _ => True) post) : Ensures pre (x >>= f) post :=
  bind (fun _ _ _ _ _ => trivial) hf

theorem ite {c : Prop} [Decidable c] {y z : Reader β} (hy : c → y.Ensures pre post)
    (hz : z.Ensures pre post) : Ensures pre (if c then y else z) post := by
  split
  next yes => exact hy yes
  next => exact hz

theorem weaken {pre' : Token → Prop} {y : Reader β} (hy : y.Ensures pre post)
    (h : ∀ t, pre' t → pre t) : y.Ensures pre' post :=
  fun r known => hy r (h _ known)

/-- What is known in any case. -/
theorem given {p : Prop} {y : Reader β} (h : ∀ t, pre t → p) (hy : p → y.Ensures pre post) :
    y.Ensures pre post :=
  fun r known => hy (h _ known) r known

end Ensures

theorem ensures_unexpected : Ensures pre (unexpected : Reader β) post := by
  intro r known b r' hr
  cases hr

theorem ensures_current : Ensures pre current fun c t => pre t ∧ t.terminal = c := by
  intro r known c r' hr
  cases hr
  exact ⟨known, rfl⟩

theorem ensures_currentLine : Ensures pre currentLine fun _ => pre := by
  intro r known line r' hr
  cases hr
  exact known

/-- The token before is taken, and the next one is not the name `constructor` where this word is expected. -/
theorem ensures_take (following : List Terminal) :
    Ensures pre (take following) fun a t => pre a ∧ (.constructor ∈ following → t.Unreserved) := by
  intro r known a r' hr
  rw [take, StateT.run_bind, StateT.run_get, pure_bind] at hr
  split at hr
  next token place hn =>
    cases hr
    exact ⟨known, fun word => Token.unreserved_of_next word hn⟩
  next => cases hr

theorem ensures_expect (terminal : Terminal) (following : List Terminal) :
    Ensures pre (expect terminal following) fun a t => (pre a ∧ a.terminal = terminal) ∧
      (.constructor ∈ following → t.Unreserved) := by
  refine .bind ensures_current fun c => .ite (fun same => ?_) ensures_unexpected
  exact (ensures_take following).weaken fun t known => ⟨known.1, known.2.trans same⟩

/-- What is taken as a name where the word `constructor` was expected is another one. -/
theorem ensures_expectName (following : List Terminal) :
    Ensures Token.Unreserved (expectName following) fun name _ => name ≠ "constructor" := by
  refine .bind (ensures_expect .name following) fun t => .pure fun _ known => ?_
  obtain ⟨⟨unreserved, terminal⟩, -⟩ := known
  exact fun same => unreserved terminal (by rw [← same, String.toList_ofList])

theorem frees_expect {following : List Terminal} (terminal : Terminal) (word : .constructor ∈ following) :
    Frees (expect terminal following) := by
  have taken : Ensures (fun _ => True) (expect terminal following) _ := ensures_expect terminal following
  exact fun r known t r' hr => (taken r known t r' hr).2 word

/-- What is made when all tokens have been read. -/
theorem Frees.pure {y : Reader α} (hy : y.Frees) (g : α → β) : Frees (do return g (← y)) :=
  .bind hy fun _ => .pure fun _ known => known

theorem frees_directive (fuel : Nat) : Frees (directive fuel) := by
  have name : Frees (expectName Expected.afterDirectiveName) := (frees_expect .name (by decide)).pure _
  refine .skip fun line => .skip fun _ => .bind name fun name => .bind ensures_current fun c =>
    .ite (fun _ => ?_) (.pure fun _ known => known.1)
  exact .skip fun _ => .skip fun first => .skip fun rest => (frees_expect _ (by decide)).pure _

/-- Where there are no directives, the token stays. -/
theorem ensures_directives (fuel : Nat) :
    Ensures Token.Unreserved (directives fuel) fun _ => Token.Unreserved := by
  induction fuel with
  | zero => exact ensures_unexpected
  | succ fuel ih =>
    refine .bind ensures_current fun c => .ite (fun _ => ?_) (.pure fun _ known => known.1)
    exact .bind ((frees_directive fuel).weaken fun _ _ => trivial) fun first =>
      .bind ih fun rest => .pure fun _ known => known

theorem frees_block (fuel : Nat) : Frees (block fuel) := by
  cases fuel with
  | zero => exact ensures_unexpected
  | succ fuel =>
    rw [block]
    exact .skip fun line => .skip fun _ => .skip fun inner => (frees_expect _ (by decide)).pure _

theorem ensures_functionFrom (fuel : Nat) (ds : List Directive) (name : String) (line : Nat) :
    Ensures (fun _ => True) (functionFrom fuel ds name line) fun f t => f.Reserves ∧ t.Unreserved :=
  .skip fun _ => .skip fun _ => .bind (frees_block fuel) fun _ => .pure fun _ known => ⟨nofun, known⟩

/-- A member leaves a token with which the next one may begin. -/
theorem ensures_member (fuel : Nat) : Ensures Token.Unreserved (member fuel) fun m t =>
    Sum.elim FieldDecl.Unreserved FunctionDecl.Reserves m ∧ t.Unreserved := by
  have ordinary (ds : List Directive) (name : String) (line : Nat) :
      Ensures (fun _ => True) (do return .inr (← functionFrom fuel ds name line)) fun m t =>
        Sum.elim FieldDecl.Unreserved FunctionDecl.Reserves m ∧ t.Unreserved :=
    .bind (ensures_functionFrom fuel ds name line) fun f => .pure fun _ known => known
  refine .bind (ensures_directives fuel) fun ds => .bind ensures_currentLine fun line =>
    .bind ensures_current fun c => ?_
  split
  · exact .skip fun _ => .skip fun ps => .bind (frees_block fuel) fun body =>
      .pure fun _ known => ⟨fun _ => rfl, known⟩
  · exact .skip fun _ => .skip fun name => ordinary ds name line
  · refine .bind ((ensures_expectName _).weaken fun _ known => known.1) fun name =>
      .given (fun _ other => other) fun other => .skip fun c => .ite (fun _ => ?_) (ordinary ds name line)
    exact .skip fun _ => .skip fun type => .bind (frees_expect _ (by decide)) fun _ =>
      .pure fun _ known => ⟨other, known⟩
  · exact ensures_unexpected

theorem ensures_members (fuel : Nat) : Ensures Token.Unreserved (members fuel) fun found _ =>
    (∀ f ∈ found.1, f.Unreserved) ∧ ∀ f ∈ found.2, f.Reserves := by
  induction fuel with
  | zero => exact ensures_unexpected
  | succ fuel ih =>
    refine .bind ensures_current fun c => .ite (fun _ => .pure fun _ _ => by simp) ?_
    refine .bind ((ensures_member fuel).weaken fun _ known => known.1) fun first => ?_
    refine .given (fun _ known => known.1) fun member => ?_
    refine .bind (ih.weaken fun _ known => known.2) fun rest => ?_
    cases first with
    | inl field => exact .pure fun _ each => ⟨List.forall_mem_cons.mpr ⟨member, each.1⟩, each.2⟩
    | inr function => exact .pure fun _ each => ⟨each.1, List.forall_mem_cons.mpr ⟨member, each.2⟩⟩

theorem ensures_record (fuel : Nat) : Ensures (fun _ => True) (record fuel) fun r _ => r.Reserves := by
  refine .skip fun line => .skip fun ds => .skip fun c => ?_
  split
  iterate 2
    exact .skip fun _ => .skip fun name => .bind (frees_expect _ (by decide)) fun _ =>
      .bind (ensures_members fuel) fun found =>
      .given (fun _ each => each) fun each => .skip fun _ => .pure fun _ _ => ⟨each.1, each.2⟩
  exact ensures_unexpected

theorem ensures_records (fuel : Nat) :
    Ensures (fun _ => True) (records fuel) fun program _ => ∀ r ∈ program, r.Reserves := by
  induction fuel with
  | zero => exact ensures_unexpected
  | succ fuel ih =>
    refine .skip fun c => .ite (fun _ => .pure fun _ _ => by simp) ?_
    refine .bind (ensures_record fuel) fun first => .given (fun _ reserves => reserves) fun reserves =>
      .bind (ih.weaken fun _ _ => trivial) fun rest =>
      .pure fun _ each => List.forall_mem_cons.mpr ⟨reserves, each⟩

end Reader

/-- In the records of a program that a text writes the constructor has its name, and no field has it. -/
theorem Program.reserves_of_read {source : String} {program : Program}
    (h : Program.read source = .ok program) : ∀ r ∈ program, r.Reserves := by
  obtain ⟨⟨token, place⟩, -, h⟩ := bind_eq_ok.mp h
  obtain ⟨⟨program', r⟩, hr, h⟩ := bind_eq_ok.mp h
  obtain rfl := pure_eq_ok.mp h
  exact Reader.ensures_records _ ⟨token, place⟩ trivial _ _ hr

end Covenant
