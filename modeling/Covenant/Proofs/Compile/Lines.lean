import Covenant.Compile
import Covenant.Proofs.Code.Lines
import Covenant.Proofs.Compile.Labels
import Covenant.Proofs.Term.WellTyped
/-!
The lines of emitted code: each is completed by its own word and operand, so that written code keeps
it, and each refers only to what the function's layout has.
-/

namespace Covenant

open Code

/-- A line that its own word and operand complete. -/
def Line.IsWritten (line : Line) : Prop :=
  ∃ completion, Line.completion? line.name = some completion ∧
    completion line.operand = some line

/-- An instruction that refers only to what a layout has. -/
def Instruction.Proper (l : Layout) : Instruction String → Prop
  | .push (.primitive p) d => IsLiteral p d
  | .push .key (.text s) => s ≠ "" ∧ ∃ k, Key.ofHex s = .ok k
  | .loadThis name | .storeThis name => name ≠ "" ∧ (l.this.field? name).isSome = true
  | .loadLocal slot | .storeLocal slot => slot < l.slots.length
  | .loadContext name => name = "publicKey"
  | .getField name | .setField name | .jump name | .jumpIfFalse name | .jumpIfTrue name => name ≠ ""
  | .deref contract => contract ≠ "" ∧ ∃ r, l.schema.find? contract = some r
  | .arith op type => (op = .neg ∨ op.isBinary = true) ∧ type.isNumeric = true
  | .push _ _ | .loose _ _ => False
  | _ => True

def Line.Proper (l : Layout) : Line → Prop
  | .label name => name ≠ ""
  | .instruction i => i.Proper l

def Code.Proper (l : Layout) (code : Code) : Prop := ∀ line ∈ code, line.Proper l

namespace Code.Proper

variable {l : Layout} {a b : Code} {line : Line}

theorem nil : Code.Proper l [] := by
  intro line h
  cases h

theorem cons (h : line.Proper l) (ha : Code.Proper l a) : Code.Proper l (line :: a) :=
  List.forall_mem_cons.mpr ⟨h, ha⟩

theorem one (h : line.Proper l) : Code.Proper l [line] := cons h nil

theorem append (ha : Code.Proper l a) (hb : Code.Proper l b) : Code.Proper l (a ++ b) :=
  List.forall_mem_append.mpr ⟨ha, hb⟩

end Code.Proper

/-! ## Written lines -/

namespace Line

/-- No two lines of the table have the same first word. -/
theorem nodup_completions : (completions.map Prod.fst).Nodup := by decide +kernel

theorem isWritten_of_mem {line : Line} (completion : Completion)
    (h : (line.name, completion) ∈ completions) (hc : completion line.operand = some line) :
    line.IsWritten :=
  ⟨completion, lookup_of_mem nodup_completions h, hc⟩

/-- The operations with one name or one count as operand stand first in the table. -/
theorem isWritten_withName {name : String} (make : String → Instruction String)
    (h : ((Line.instruction (make name)).name, withName make) ∈ completions.take 14)
    (operand : (Line.instruction (make name)).operand = .text name) (named : name ≠ "") :
    (Line.instruction (make name)).IsWritten := by
  refine isWritten_of_mem (withName make) (List.mem_of_mem_take h) ?_
  rw [operand]
  exact if_neg named

theorem isWritten_withCount {count : Nat} (make : Nat → Instruction String)
    (h : ((Line.instruction (make count)).name, withCount make) ∈ completions.take 14)
    (operand : (Line.instruction (make count)).operand = .integer count) :
    (Line.instruction (make count)).IsWritten := by
  refine isWritten_of_mem (withCount make) (List.mem_of_mem_take h) ?_
  rw [operand]
  simp [withCount]

theorem isWritten_of_plain {i : Instruction String}
    (h : i ∈ (Instruction.plain : List (Instruction String)) ++ arithmetic)
    (alone : (Line.instruction i).operand = .null) : (Line.instruction i).IsWritten := by
  refine isWritten_of_mem (Line.alone i)
    (List.mem_append_right _ (List.mem_map.mpr ⟨i, h, rfl⟩)) ?_
  rw [alone]
  rfl

theorem fits_of_isLiteral {p : Primitive} {d : Datum} (h : IsLiteral p d) : fits p d = true := by
  cases h with
  | boolean | string | single | double => rfl
  | integer range least greatest => cases p <;> cases range <;> simp [fits, Primitive.range?, *]

theorem mem_all (p : Primitive) : p ∈ Primitive.all := by
  cases p <;> decide

/-- Written code keeps proper lines. -/
theorem Proper.isWritten {l : Layout} {line : Line} (h : line.Proper l) : line.IsWritten := by
  have first : ∀ {entry : String × Completion}, entry ∈ completions.take 14 → entry ∈ completions :=
    fun h => List.mem_of_mem_take h
  cases line with
  | label name =>
    exact isWritten_of_mem withLabel (first (by simp [completions, Line.name]))
      (if_neg h)
  | instruction i =>
    cases i with
    | push kind d =>
      cases kind with
      | primitive p =>
        refine isWritten_of_mem (withLiteral p) ?_ (if_pos (fits_of_isLiteral h))
        exact List.mem_append_left _
          (List.mem_append_right _ (List.mem_map.mpr ⟨p, mem_all p, rfl⟩))
      | key =>
        cases d with
        | text s =>
          exact isWritten_of_mem withKey (first (by
            simp [completions, Line.name, Instruction.name, PushKind.name])) (if_neg h.1)
        | _ => exact h.elim
      | other name => exact h.elim
    | loadThis name =>
      exact isWritten_withName .loadThis (by simp [completions, Line.name, Instruction.name]) rfl h.1
    | storeThis name =>
      exact isWritten_withName .storeThis (by simp [completions, Line.name, Instruction.name]) rfl h.1
    | loadLocal slot =>
      exact isWritten_withCount .loadLocal (by simp [completions, Line.name, Instruction.name]) rfl
    | storeLocal slot =>
      exact isWritten_withCount .storeLocal (by simp [completions, Line.name, Instruction.name]) rfl
    | arrayNew count =>
      exact isWritten_withCount .arrayNew (by simp [completions, Line.name, Instruction.name]) rfl
    | loadContext name =>
      obtain rfl : name = "publicKey" := h
      exact isWritten_withName .loadContext (by simp [completions, Line.name, Instruction.name]) rfl
        (by decide)
    | getField name =>
      exact isWritten_withName .getField (by simp [completions, Line.name, Instruction.name]) rfl h
    | setField name =>
      exact isWritten_withName .setField (by simp [completions, Line.name, Instruction.name]) rfl h
    | deref name =>
      exact isWritten_withName .deref (by simp [completions, Line.name, Instruction.name]) rfl h.1
    | jump name =>
      exact isWritten_withName .jump (by simp [completions, Line.name, Instruction.name]) rfl h
    | jumpIfFalse name =>
      exact isWritten_withName .jumpIfFalse (by simp [completions, Line.name, Instruction.name]) rfl h
    | jumpIfTrue name =>
      exact isWritten_withName .jumpIfTrue (by simp [completions, Line.name, Instruction.name]) rfl h
    | arith op type =>
      refine isWritten_of_plain (List.mem_append_right _ (List.mem_flatMap.mpr
        ⟨type, List.mem_filter.mpr ⟨mem_all type, h.2⟩, List.mem_map.mpr ⟨op, ?_, rfl⟩⟩)) rfl
      cases op <;> simp_all [Instruction.Proper, Line.Proper, Arith.isBinary]
    | compare c =>
      refine isWritten_of_plain (List.mem_append_left _ ?_) rfl
      cases c <;> simp [Instruction.plain, Comparison.all]
    | loose word operand => exact h.elim
    | _ => exact isWritten_of_plain (List.mem_append_left _ (by simp [Instruction.plain])) rfl

end Line

/-! ## Linked lines -/

theorem literalValue_of_isLiteral {p : Primitive} {d : Datum} (h : IsLiteral p d) :
    literalValue (.primitive p) d = .ok d := by
  cases h with
  | boolean | string | single | double => rfl
  | integer range _ _ => cases p <;> first | rfl | cases range

section Constants

variable {l : Layout} {abi : Abi} {header : Header} {labels : List (String × Nat)} {i : Instruction String}

theorem Instruction.Proper.isKnown (hi : i.Proper l) : i.isKnown = true := by
  cases i with
  | loose => exact hi.elim
  | _ => rfl

/-- What a proper instruction pushes once it is linked is a literal or a key. -/
theorem Instruction.Proper.pushed (hi : i.Proper l) {kind : PushKind} {d : Datum}
    (h : linkInstruction abi header labels i = .ok (.push kind d)) :
    (∃ p, IsLiteral p d) ∨ ∃ k : Key, d = .key k := by
  cases i with
  | push kind' operand =>
    obtain ⟨value, hv, h⟩ := bind_eq_ok.mp h
    cases h
    cases kind with
    | primitive p =>
      cases hv.symm.trans (literalValue_of_isLiteral hi)
      exact .inl ⟨p, hi⟩
    | key =>
      cases operand with
      | text s =>
        obtain ⟨-, k, hk⟩ := hi
        rw [literalValue, hk] at hv
        cases hv
        exact .inr ⟨k, rfl⟩
      | _ => exact hi.elim
    | other => exact hi.elim
  | loadThis _ | storeThis _ | loadLocal _ | storeLocal _ | jump _ | jumpIfFalse _ | jumpIfTrue _ =>
    obtain ⟨_, -, h⟩ := bind_eq_ok.mp h
    cases h
  | deref _ | loadContext _ =>
    rw [linkInstruction] at h
    split at h <;> cases h
  | _ => cases h

/-- The instructions of linked proper code are known, and its constants are literals and keys. -/
theorem LinkedCode.constants_of_link {code : Code} {linked : LinkedCode} (proper : Code.Proper l code)
    (h : code.link abi header = .ok linked) {place : Nat} {j : Instruction Nat}
    (hj : linked[place]? = some j) : j.isKnown = true ∧
      ∀ kind d, j = .push kind d → (∃ p, IsLiteral p d) ∨ ∃ k : Key, d = .key k := by
  obtain ⟨labels, _, -, hl, rfl, -⟩ := link_eq_ok h
  rw [List.getElem?_toArray] at hj
  obtain ⟨i, hi, made⟩ := exists_instruction_of_linkAll hl (List.mem_of_getElem? hj)
  have own : i.Proper l := proper _ hi
  refine ⟨(linkInstruction_shape made).isKnown.trans own.isKnown, ?_⟩
  rintro kind d rfl
  exact own.pushed made

end Constants

/-- Proper instructions are linked against a description of the same layout. -/
theorem Instruction.Proper.links {l : Layout} {abi : Abi} {header : Header}
    {labels : List (String × Nat)} {i : Instruction String} (hi : i.Proper l)
    (this : abi.thisType = some l.this) (slots : l.slots.length ≤ header.locals)
    (others : ∀ contract, i = .deref contract → (abi.otherType? contract).isSome = true)
    (target : ∀ name, i.jumpTarget? = some name → ∃ place, labels.lookup name = some place) :
    ∃ j, linkInstruction abi header labels i = .ok j := by
  have field : ∀ word name, (l.this.field? name).isSome = true →
      checkField abi word name = .ok () := by
    intro word name h
    simp only [checkField, this, Option.bind_some]
    exact if_pos h
  have slot : ∀ n, n < l.slots.length → checkSlot header n = .ok () :=
    fun n h => if_pos (Nat.lt_of_lt_of_le h slots)
  cases i with
  | push kind d =>
    cases kind with
    | primitive p =>
      exact ⟨.push (.primitive p) d, by rw [linkInstruction, literalValue_of_isLiteral hi]; rfl⟩
    | key =>
      cases d with
      | text s =>
        obtain ⟨-, k, hk⟩ := hi
        exact ⟨.push .key (.key k), by simp only [linkInstruction, literalValue, hk]; rfl⟩
      | _ => exact hi.elim
    | other name => exact hi.elim
  | loadThis name => exact ⟨.loadThis name, by rw [linkInstruction, field _ _ hi.2]; rfl⟩
  | storeThis name => exact ⟨.storeThis name, by rw [linkInstruction, field _ _ hi.2]; rfl⟩
  | loadLocal n => exact ⟨.loadLocal n, by rw [linkInstruction, slot n hi]; rfl⟩
  | storeLocal n => exact ⟨.storeLocal n, by rw [linkInstruction, slot n hi]; rfl⟩
  | loadContext name => exact ⟨.loadContext name, if_pos hi⟩
  | deref contract => exact ⟨.deref contract, if_pos (others contract rfl)⟩
  | jump name =>
    obtain ⟨place, hp⟩ := target name rfl
    exact ⟨.jump place, by rw [linkInstruction, linkTarget_eq_ok.mpr hp]; rfl⟩
  | jumpIfFalse name =>
    obtain ⟨place, hp⟩ := target name rfl
    exact ⟨.jumpIfFalse place, by rw [linkInstruction, linkTarget_eq_ok.mpr hp]; rfl⟩
  | jumpIfTrue name =>
    obtain ⟨place, hp⟩ := target name rfl
    exact ⟨.jumpIfTrue place, by rw [linkInstruction, linkTarget_eq_ok.mpr hp]; rfl⟩
  | loose word operand => exact hi.elim
  | _ => exact ⟨_, rfl⟩

/-! ## Emitted lines -/

theorem Layout.Named.record {l : Layout} (named : l.Named) {contract : String} {r : RecordSchema}
    (h : l.schema.find? contract = some r) : contract ≠ "" ∧ r.type.Named := by
  obtain ⟨hm, rfl⟩ := Schema.mem_of_find? h
  exact named.schema r hm

/-- The code of a well-typed term is proper. -/
theorem HasType.proper {l : Layout} (named : l.Named) {t : Term} {type : Ty}
    (typed : HasType l t type) : ∀ n, Code.Proper l (t.code n) := by
  induction typed with
  | literal h => exact fun n => .one h
  | slot h => exact fun n => .one (List.getElem?_eq_some_iff.mp h).1
  | field h => exact fun n => .one ⟨(named.this.field h).1, by rw [h]; rfl⟩
  | caller => exact fun n => .one rfl
  | member _ _ hn ih =>
    intro n
    rw [Term.code]
    exact (ih n).append (.one hn)
  | referenced _ known found ih =>
    intro n
    obtain ⟨contract, record⟩ := named.record known
    rw [Term.code, Term.code]
    exact .append (.append (ih n) (.one ⟨contract, _, known⟩)) (.one (record.field found).1)
  | @array items _ _ ih =>
    intro n
    rw [Term.code]
    refine Code.Proper.append ?_ (.one trivial)
    clear * - ih
    induction items generalizing n with
    | nil => exact .nil
    | cons t rest ihs =>
      rw [List.forall_mem_cons] at ih
      exact (ih.1 n).append (ihs ih.2 _)
  | arraySize _ ih | textSize _ ih | not _ ih | truth _ _ ih =>
    intro n
    rw [Term.code]
    exact (ih n).append (.one trivial)
  | element _ _ _ ih ih' | indexOf _ _ ih ih' | includes _ _ ih ih' | appended _ _ ih ih'
  | join _ _ ih ih' | compare _ _ _ ih ih' =>
    intro n
    rw [Term.code]
    exact ((ih n).append (ih' _)).append (.one trivial)
  | arith binary numeric _ _ ih ih' =>
    intro n
    rw [Term.code]
    exact ((ih n).append (ih' _)).append (.one ⟨.inr binary, numeric⟩)
  | @negate p _ signed _ ih =>
    intro n
    rw [Term.code]
    have numeric : p.isNumeric = true := by
      cases p <;> first | rfl | cases signed
    exact (ih n).append (.one ⟨.inl rfl, numeric⟩)
  | both _ _ ih ih' | either _ _ ih ih' =>
    intro n
    rw [Term.code]
    exact .append (.append (.append (ih _)
      (.cons trivial (.cons (labelName_ne_empty n) (.one trivial)))) (ih' _))
      (.one (labelName_ne_empty n))

theorem Along.proper {l : Layout} (named : l.Named) {whole type : Ty} {path : List PathStep}
    (along : Along l whole path type) {read value : Term} (hr : HasType l read whole)
    (hv : HasType l value type) (n : Nat) : Code.Proper l (Term.codeAlong n read value path) := by
  induction along generalizing n read with
  | nil type => exact hv.proper named n
  | member found hn _ ih =>
    rw [Term.codeAlong]
    exact ((hr.proper named n).append (ih (.member hr found hn) hv _)).append (.one hn)
  | element place integer _ ih =>
    rw [Term.codeAlong]
    exact (((hr.proper named n).append (place.proper named _)).append
      (ih (.element hr place integer) hv _)).append (.one trivial)

/-- The code of a well-typed action is proper. -/
theorem Action.WellTyped.proper {l : Layout} (named : l.Named) {result : Option Ty} {a : Action}
    (typed : a.WellTyped l result) : ∀ n, Code.Proper l (a.code n) := by
  induction typed with
  | @sequence actions _ ih =>
    intro n
    rw [Action.code]
    clear * - ih
    induction actions generalizing n with
    | nil => exact .nil
    | cons a rest ihs =>
      rw [List.forall_mem_cons] at ih
      exact (ih.1 n).append (ihs ih.2 _)
  | @assign root path value whole type first along stored =>
    intro n
    rw [Action.code]
    refine (along.proper named first stored n).append (.one ?_)
    cases root with
    | slot index =>
      cases first with
      | slot h => exact (List.getElem?_eq_some_iff.mp h).1
    | field name =>
      cases first with
      | field h => exact ⟨(named.this.field h).1, by rw [h]; rfl⟩
  | ifThen test _ ih =>
    intro n
    rw [Action.code]
    exact .append (.append (.append (test.proper named _) (.one (labelName_ne_empty n))) (ih _))
      (.one (labelName_ne_empty n))
  | ifElse test _ _ ih ih' =>
    intro n
    rw [Action.code]
    exact .append (.append (.append (.append (.append (test.proper named _)
      (.one (labelName_ne_empty n))) (ih _))
      (.cons (labelName_ne_empty _) (.one (labelName_ne_empty n)))) (ih' _))
      (.one (labelName_ne_empty _))
  | loop test _ ih =>
    intro n
    rw [Action.code]
    exact .append (.append (.append (.append (.one (labelName_ne_empty n)) (test.proper named _))
      (.one (labelName_ne_empty _))) (ih _))
      (.cons (labelName_ne_empty n) (.one (labelName_ne_empty _)))
  | leave => exact fun n => .one trivial
  | leaveWith _ returned =>
    intro n
    rw [Action.code]
    exact (returned.proper named n).append (.one trivial)
  | abort text =>
    intro n
    rw [Action.code]
    exact (text.proper named n).append (.one trivial)
  | evaluate evaluated =>
    intro n
    rw [Action.code]
    exact (evaluated.proper named n).append (.one trivial)

end Covenant
