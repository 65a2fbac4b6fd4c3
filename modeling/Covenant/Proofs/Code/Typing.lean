import Covenant.Proofs.Code.Balance
import Covenant.Proofs.Term.WellTyped
/-!
The types of the values on the stack.

* `Instruction.Typed`: what an instruction makes of the types on the stack, in a layout of slots and
  fields and a function with a type of result;
* `Types`: a piece of code leads from some types on the stack to others;
* `Types.balanced`: such code is balanced, the height being the number of types.
-/

namespace Covenant

/-- What an instruction makes of the types of the values on the stack. -/
inductive Instruction.Typed (l : Layout) (result : Option Ty) :
    Instruction String → List Ty → List Ty → Prop
  | literal {p : Primitive} {d : Datum} {st : List Ty} (h : IsLiteral p d) :
      Typed l result (.push (.primitive p) d) st (.primitive p :: st)
  | key {k : Key} {st : List Ty} (point : k.IsPoint) :
      Typed l result (.push .key (.text k.toHex)) st (.publicKey :: st)
  | loadThis {name : String} {t : Ty} {st : List Ty} (held : l.this.field? name = some t) :
      Typed l result (.loadThis name) st (t :: st)
  | storeThis {name : String} {t : Ty} {st : List Ty} (held : l.this.field? name = some t) :
      Typed l result (.storeThis name) (t :: st) st
  | loadLocal {slot : Nat} {t : Ty} {st : List Ty} (held : l.slots[slot]? = some t) :
      Typed l result (.loadLocal slot) st (t :: st)
  | storeLocal {slot : Nat} {t : Ty} {st : List Ty} (held : l.slots[slot]? = some t) :
      Typed l result (.storeLocal slot) (t :: st) st
  | loadContext {name : String} {st : List Ty} :
      Typed l result (.loadContext name) st (.publicKey :: st)
  | getField {name word : String} {fields : List (String × Ty)} {t : Ty} {st : List Ty}
      (held : fields.lookup word = some t) :
      Typed l result (.getField word) (.struct name fields :: st) (t :: st)
  | setField {name word : String} {fields : List (String × Ty)} {t : Ty} {st : List Ty}
      (held : fields.lookup word = some t) :
      Typed l result (.setField word) (t :: .struct name fields :: st) (.struct name fields :: st)
  | deref {contract : String} {record : RecordSchema} {st : List Ty}
      (known : l.schema.find? contract = some record) :
      Typed l result (.deref contract) (.reference contract :: st) (record.type.toTy :: st)
  | arrayNew {count : Nat} {t : Ty} {st : List Ty} :
      Typed l result (.arrayNew count) (List.replicate count t ++ st) (.array t :: st)
  | arrayLength {t : Ty} {st : List Ty} : Typed l result .arrayLength (.array t :: st) (.u32 :: st)
  | arrayGet {t u : Ty} {st : List Ty} (integer : u.isInteger = true) :
      Typed l result .arrayGet (u :: .array t :: st) (t :: st)
  | arraySet {t u : Ty} {st : List Ty} (integer : u.isInteger = true) :
      Typed l result .arraySet (t :: u :: .array t :: st) (.array t :: st)
  | arrayPush {t : Ty} {st : List Ty} :
      Typed l result .arrayPush (t :: .array t :: st) (.array t :: st)
  | arrayIndexOf {t u : Ty} {st : List Ty} :
      Typed l result .arrayIndexOf (u :: .array t :: st) (.i32 :: st)
  | arrayIncludes {t u : Ty} {st : List Ty} :
      Typed l result .arrayIncludes (u :: .array t :: st) (.boolean :: st)
  | textLength {st : List Ty} : Typed l result .textLength (.string :: st) (.u32 :: st)
  | concat {st : List Ty} : Typed l result .concat (.string :: .string :: st) (.string :: st)
  | compare {c : Comparison} {t : Ty} {st : List Ty} (suits : c.Suits t) :
      Typed l result (.compare c) (t :: t :: st) (.boolean :: st)
  | keyMatch {t u : Ty} {st : List Ty} : Typed l result .keyMatch (u :: t :: st) (.boolean :: st)
  | not {t : Ty} {st : List Ty} : Typed l result .not (t :: st) (.boolean :: st)
  | truthy {t : Ty} {st : List Ty} : Typed l result .truthy (t :: st) (.boolean :: st)
  | jump {name : String} {st : List Ty} : Typed l result (.jump name) st st
  | jumpIfFalse {name : String} {t : Ty} {st : List Ty} :
      Typed l result (.jumpIfFalse name) (t :: st) st
  | jumpIfTrue {name : String} {t : Ty} {st : List Ty} :
      Typed l result (.jumpIfTrue name) (t :: st) st
  | dup {t : Ty} {st : List Ty} : Typed l result .dup (t :: st) (t :: t :: st)
  | drop {t : Ty} {st : List Ty} : Typed l result .drop (t :: st) st
  | abort {t : Ty} {st : List Ty} : Typed l result .abort (t :: st) st
  | abortUnauthorized {st : List Ty} : Typed l result .abortUnauthorized st st
  | leave {st : List Ty} (h : result = none) : Typed l result .leave st st
  | leaveValue {t : Ty} {st : List Ty} (h : result = some t) :
      Typed l result .leaveValue (t :: st) st
  | arith {o : Arith} {p : Primitive} {st : List Ty} (binary : o.isBinary = true)
      (numeric : p.isNumeric = true) :
      Typed l result (.arith o p) (.primitive p :: .primitive p :: st) (.primitive p :: st)
  | negate {p : Primitive} {st : List Ty} (numeric : p.isNumeric = true) :
      Typed l result (.arith .neg p) (.primitive p :: st) (.primitive p :: st)

/-- Of the types only their number counts for the height of the stack. -/
theorem Instruction.Typed.raises {l : Layout} {result : Option Ty} {i : Instruction String}
    {st st' : List Ty} (h : i.Typed l result st st') : i.Raises st.length st'.length := by
  cases h with
  | @arith o p st binary =>
    have shape : (Instruction.arith o p : Instruction String).pops = 2 := by
      cases o <;> first | rfl | cases binary
    rw [Raises, shape]
    simp [pushes]
  | _ => simp [Raises, pops, pushes]

/-- The types below those of the values that an instruction takes stay. -/
theorem Instruction.Typed.below {l : Layout} {result : Option Ty} {i : Instruction String}
    {st st' : List Ty} (h : i.Typed l result st st') : st'.drop i.pushes = st.drop i.pops := by
  cases h with
  | @arith o p st binary => cases o <;> first | rfl | cases binary
  | arrayNew => simp [pops, pushes]
  | _ => rfl

theorem Instruction.Typed.isKnown {l : Layout} {result : Option Ty} {i : Instruction String}
    {st st' : List Ty} (h : i.Typed l result st st') : i.isKnown = true := by
  cases h <;> rfl

namespace Code

/-- A piece of code leads from some types on the stack to others, labels elsewhere having known ones. -/
abbrev Types (l : Layout) (result : Option Ty) (known : List (String × List Ty)) (st : List Ty)
    (code : Code) (st' : List Ty) : Prop :=
  Leads (Instruction.Typed l result) known st code st'

theorem Types.balanced {l : Layout} {result : Option Ty} {known : List (String × List Ty)}
    {st st' : List Ty} {code : Code} (typed : Types l result known st code st') :
    Balanced (known.map fun p => (p.1, p.2.length)) st.length code st'.length :=
  typed.map Instruction.Typed.raises

end Code

end Covenant
