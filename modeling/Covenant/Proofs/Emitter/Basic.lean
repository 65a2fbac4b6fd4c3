import Covenant.Compile
import Covenant.Proofs.Term.Elaboration
/-!
Compiling in one pass. Code is emitted while types are found, so the type of an operand that decides about the code
before it is inferred first: its code is emitted into a scratch buffer, which is thrown away, and its type is noted in a
table by the position of the operand in the tree.

* `Emitter`: what has been emitted, and what is known meanwhile;
* `Emission.infer`, `Emission.expr`, `Emission.store`: types and code of expressions, and of what is stored into them.
-/

namespace Covenant

/-- Where a node stands in a tree: the way to it from the root. -/
abbrev Position := List Nat

namespace Expr

def parts : Expr → List Expr
  | .number _ _ | .string _ _ | .boolean _ _ | .name _ _ | .this _ => []
  | .member object _ _ => [object]
  | .index object place _ => [object, place]
  | .method object _ arguments _ => object :: arguments
  | .array items _ | .call _ items _ => items
  | .unary _ operand _ => [operand]
  | .binary _ left right _ => [left, right]

def at? : Expr → Position → Option Expr
  | e, [] => some e
  | e, i :: q =>
    match e.parts[i]? with
    | some part => part.at? q
    | none => none

end Expr

/-- The types that have been inferred, by position: none for an expression without a value. -/
abbrev TypeTable := List (Position × Option Ty)

/-- What has been emitted of a function, and what is known meanwhile. -/
structure Emitter where
  scope : Scope
  code : Code
  /-- how many labels are taken -/
  labels : Nat
  types : TypeTable
  /-- how many branches are open -/
  branches : Nat
  /-- whether some branch has left the function -/
  leftEarly : Bool
  /-- the references that are followed on every way -/
  followed : List String

namespace Emitter

def start (scope : Scope) : Emitter := ⟨scope, [], 0, [], 0, false, []⟩

def add (σ : Emitter) (line : Line) : Emitter := { σ with code := σ.code ++ [line] }

/-- The references that are followed on every way when these are, unless some way has branched off. -/
def noted (σ : Emitter) (names : List String) : List String :=
  if σ.branches = 0 ∧ σ.leftEarly = false then names.foldl addNew σ.followed else σ.followed

def follow (σ : Emitter) (names : List String) : Emitter := { σ with followed := σ.noted names }

end Emitter

abbrev Emission := StateT Emitter (Except CompileError)

namespace Emission

variable {α : Type}

def fail (complaint : Complaint) (line : Nat) : Emission α := StateT.lift (CompileError.throw complaint line)

def emit (i : Instruction String) : Emission Unit := modify fun σ => σ.add (.op i)

def mark (label : String) : Emission Unit := modify fun σ => σ.add (.label label)

def newLabel : Emission String := modifyGet fun σ => (labelName σ.labels, { σ with labels := σ.labels + 1 })

def follow (name : String) : Emission Unit := modify fun σ => σ.follow [name]

/-- What is emitted may be skipped when the code runs. -/
def branch (x : Emission α) : Emission α := do
  modify fun σ => { σ with branches := σ.branches + 1 }
  let a ← x
  modify fun σ => { σ with branches := σ.branches - 1 }
  return a

/-- Emits into a buffer that is thrown away. -/
def scratch (x : Emission α) : Emission α := do
  let before ← get
  set { before with code := [] }
  let a ← x
  modify fun σ => { σ with code := before.code, labels := before.labels }
  return a

/-- The type of the expression at a position, which is found out at most once. -/
def infer (position : Position) (x : Emission (Option Ty)) : Emission (Option Ty) := do
  match (← get).types.lookup position with
  | some type => return type
  | none =>
    let type ← scratch x
    modify fun σ => { σ with types := (position, type) :: σ.types }
    return type

/-! ## Requirements on what is emitted; `own` is the line of the expression itself -/

def value (own : Nat) (x : Emission (Option Ty)) : Emission Ty := do
  match ← x with
  | some type => return type
  | none => fail .noValue own

def valueOf (expected : Ty) (own line : Nat) (x : Emission (Option Ty)) : Emission Unit := do
  let found ← value own x
  if expected = found then pure () else fail (.mismatch expected found) line

def condition (own line : Nat) (x : Emission (Option Ty)) : Emission Unit := do
  let found ← value own x
  if found = .boolean then pure ()
  else if found = .publicKey || found = .string || found.isNumeric then emit .truthy
  else fail (.conditionType found) line

def place (own line : Nat) (x : Emission (Option Ty)) : Emission Unit := do
  let found ← value own x
  if found.isInteger then pure () else fail (.placeType found) line

/-! ## Expressions -/

def number (expected : Option Ty) (negative : Bool) (text : String) (line : Nat) : Emission (Option Ty) := do
  let p := Expr.literalPrimitive expected text
  let _ ← Expr.literal expected negative text line
  emit (.push (.primitive p) (Expr.literalDatum p negative text))
  return some (.primitive p)

def followField : Expr → Emission Unit
  | .member (.this _) name _ => follow name
  | _ => pure ()

/-- A member of the value on the stack, which an expression of a type has left there. -/
def memberOf (object : Expr) (type : Ty) (word : String) (line : Nat) : Emission (Option Ty) :=
  match type with
  | .array _ => do
    if word = "length" then
      emit .arrayLength
      return some .u32
    else fail (.noSuchField type word) line
  | .primitive .string => do
    if word = "length" then
      emit .textLength
      return some .u32
    else fail (.noSuchField type word) line
  | .reference contract => do
    let record ← (← get).scope.schema.record contract
    match record.type.field? word with
    | some field =>
      followField object
      emit (.deref contract)
      emit (.getField word)
      return some field
    | none => fail (.unknownReferencedField contract word) line
  | .struct _ fields =>
    match fields.lookup word with
    | some field => do
      emit (.getField word)
      return some field
    | none => fail (.unknownField word) line
  | _ => fail (.noSuchField type word) line

/-- The type that an expression has of its own, which a literal number has not. -/
def ownType (e : Expr) (inferred : Emission (Option Ty)) : Emission (Option Ty) :=
  if e.isUntyped then pure none else inferred

/-- The type of operands without types of their own: what the operation is expected to give, or the left one is found to
have then. -/
def literalOperandType (op : BinaryOp) (expected : Option Ty) (ofLeft : Emission (Option Ty)) : Emission (Option Ty) :=
  match Expr.literalType op expected with
  | some type => return some type
  | none => ofLeft

/-- The type of the operands of an operator, if one of them has a value: that of the left one, unless that is a literal
number and the right one is not. -/
def operandType (op : BinaryOp) (expected : Option Ty) (left right : Expr) (ofLeft ofRight : Emission (Option Ty)) :
    Emission (Option Ty) := do
  match ← ownType left ofLeft with
  | some type => return some type
  | none =>
    match ← ownType right ofRight with
    | some type => return some type
    | none => literalOperandType op expected ofLeft

/-- The instruction for an operator on operands of a type, and the type of the result. -/
def operator (op : BinaryOp) (type : Ty) (line : Nat) : Emission (Option Ty) :=
  match op.comparison? with
  | some c => do
    if c = .equal || c = .notEqual || type.isNumeric || type = .string then
      emit (.compare c)
      return some .boolean
    else fail (.unordered type) line
  | none => do
    if op = .add && type = .string then
      emit .concat
      return some type
    else match type, op.arith? with
      | .primitive p, some a =>
        if p.isNumeric then
          emit (.arith a p)
          return some type
        else fail (.undefinedOperator op.text type) line
      | _, _ => fail (.undefinedOperator op.text type) line

/-- An operation on operands of a type. Only if the left one has no value, there is none. -/
def operation (op : BinaryOp) (left right : Expr) (line : Nat) (ofLeft ofRight : Option Ty → Emission (Option Ty)) :
    Option Ty → Emission (Option Ty)
  | some type => do
    valueOf type left.line line (ofLeft (some type))
    valueOf type right.line line (ofRight (some type))
    operator op type line
  | none => do
    let _ ← value left.line (ofLeft none)
    fail .noValue left.line

/-! ## What is stored, by the type of the target; `ofWhole` is the emission of the target itself -/

def appended (whole item : Expr) (line : Nat) (ofWhole ofItem : Option Ty → Emission (Option Ty)) : Ty → Emission Unit
  | .array element => do
    let _ ← value whole.line (ofWhole (some (.array element)))
    valueOf element item.line line (ofItem (some element))
    emit .arrayPush
  | _ => fail (.arraysOnly "push") line

def withMember (whole : Expr) (word : String) (line : Nat) (ofWhole : Option Ty → Emission (Option Ty))
    (emitted : Ty → Emission Unit) : Ty → Emission Unit
  | .reference contract => fail (.referencedTarget contract) line
  | .struct name fields =>
    match fields.lookup word with
    | some type => do
      let _ ← value whole.line (ofWhole (some (.struct name fields)))
      emitted type
      emit (.setField word)
    | none => fail (.unknownField word) line
  | type => fail (.noFields type) line

def withElement (whole index : Expr) (line : Nat) (ofWhole ofIndex : Option Ty → Emission (Option Ty))
    (emitted : Ty → Emission Unit) : Ty → Emission Unit
  | .array element => do
    let _ ← value whole.line (ofWhole (some (.array element)))
    place index.line line (ofIndex (some .u32))
    emitted element
    emit .arraySet
  | type => fail (.notArray type) line

/-! ## Expressions, and what is stored into them -/

mutual
/-- The code and the type of an expression, none where it has no value. -/
def expr (position : Position) (expected : Option Ty) : Expr → Emission (Option Ty)
  | .number text line => number expected false text line
  | .string value _ => do
    emit (.push (.primitive .string) (.text value))
    return some .string
  | .boolean value _ => do
    emit (.push (.primitive .boolean) (.boolean value))
    return some .boolean
  | .array items line => do
    let element ← match expected, items with
      | some (.array element), _ => pure element
      | _, [] => fail .emptyArray line
      | _, first :: _ => value first.line (infer (position ++ [0]) (expr (position ++ [0]) none first))
    exprs position 0 element line items
    emit (.arrayNew items.length)
    return some (.array element)
  | e@(.name word line) => do
    let s := (← get).scope
    if s.isContext e then fail .contextAlone line
    else
      let (slot, type) ← s.slot word line
      emit (.loadLocal slot)
      return some type
  | .this line => fail .thisAlone line
  | .member (.this _) word line => do
    let type ← (← get).scope.field word line
    emit (.loadThis word)
    return some type
  | .member object word line => do
    if (← get).scope.isContext object then
      if word = "publicKey" then
        emit (.loadContext "publicKey")
        return some .publicKey
      else fail (.contextAttribute word) line
    else
      let type ← value object.line (expr (position ++ [0]) none object)
      memberOf object type word line
  | .index object index line => do
    let type ← value object.line (expr (position ++ [0]) none object)
    match type with
    | .array element =>
      place index.line line (expr (position ++ [1]) (some .u32) index)
      emit .arrayGet
      return some element
    | _ => fail (.notArray type) line
  | .method object word [argument] line => do
    if word = "indexOf" || word = "includes" then
      let type ← value object.line (expr (position ++ [0]) none object)
      match type with
      | .array element =>
        valueOf element argument.line line (expr (position ++ [1]) (some element) argument)
        if word = "indexOf" then
          emit .arrayIndexOf
          return some .i32
        else
          emit .arrayIncludes
          return some .boolean
      | _ => fail (.arraysOnly word) line
    else if word = "push" then
      let pushed := appended object argument line (fun type => expr (position ++ [0]) type object)
        fun type => expr (position ++ [1]) type argument
      store (position ++ [0]) line pushed object
      return none
    else fail (.unknownMethod word) line
  | .method _ word _ line =>
    if ["indexOf", "includes", "push"].contains word then fail (.argumentCount word) line
    else fail (.unknownMethod word) line
  | .call word [argument] line => do
    if word = "error" then
      valueOf .string argument.line line (expr (position ++ [0]) (some .string) argument)
      emit .abort
      return none
    else fail (.unknownFunction word) line
  | .call word _ line =>
    if word = "error" then fail (.argumentCount word) line
    else fail (.unknownFunction word) line
  | .unary .not operand line => do
    condition operand.line line (expr (position ++ [0]) (some .boolean) operand)
    emit .not
    return some .boolean
  | .unary .negate (.number text line) _ => number expected true text line
  | .unary .negate operand line => do
    let type ← value operand.line (expr (position ++ [0]) expected operand)
    match type with
    | .primitive p =>
      if p.isSigned then
        emit (.arith .neg p)
        return some type
      else fail (.notNegatable type) line
    | _ => fail (.notNegatable type) line
  | .binary op left right line => do
    if op = .and || op = .or then
      let last ← newLabel
      condition left.line line (expr (position ++ [0]) (some .boolean) left)
      emit .dup
      emit (if op = .and then .jumpIfFalse last else .jumpIfTrue last)
      emit .drop
      branch (condition right.line line (expr (position ++ [1]) (some .boolean) right))
      mark last
      return some .boolean
    else
      let type ← operandType op expected left right
        (infer (position ++ [0]) (expr (position ++ [0]) none left))
        (infer (position ++ [1]) (expr (position ++ [1]) none right))
      operation op left right line (fun type => expr (position ++ [0]) type left)
        (fun type => expr (position ++ [1]) type right) type

/-- The code of the items of an array literal, which are numbered from `i`. -/
def exprs (position : Position) (i : Nat) (element : Ty) (line : Nat) : List Expr → Emission Unit
  | [] => pure ()
  | e :: rest => do
    valueOf element e.line line (expr (position ++ [i]) (some element) e)
    exprs position (i + 1) element line rest

/-- The code that stores what `emitted` leaves on the stack, which is told the type that is expected of it. -/
def store (position : Position) (line : Nat) (emitted : Ty → Emission Unit) : Expr → Emission Unit
  | e@(.name word _) => do
    let s := (← get).scope
    if s.isContext e then fail .contextTarget line
    else
      let (slot, type) ← s.slot word line
      emitted type
      emit (.storeLocal slot)
  | .member (.this _) word _ => do
    let type ← (← get).scope.field word line
    emitted type
    emit (.storeThis word)
  | .member object word _ => do
    if (← get).scope.isContext object then fail .contextTarget line
    else
      let whole := withMember object word line (fun type => expr (position ++ [0]) type object) emitted
      store (position ++ [0]) line whole object
  | .index object index _ =>
    let whole := withElement object index line (fun type => expr (position ++ [0]) type object)
      (fun type => expr (position ++ [1]) type index) emitted
    store (position ++ [0]) line whole object
  | _ => fail .target line
end

def operationAt (position : Position) (op : BinaryOp) (left right : Expr) (line : Nat) (type : Option Ty) :
    Emission (Option Ty) :=
  operation op left right line (fun type => expr (position ++ [0]) type left)
    (fun type => expr (position ++ [1]) type right) type

/-- An operation other than a logical one: the type of its operands comes before their code. -/
theorem expr_binary {position : Position} {expected : Option Ty} {op : BinaryOp} {left right : Expr} {line : Nat}
    (plain : op.isLogical = false) : expr position expected (.binary op left right line) = (do
      let type ← operandType op expected left right (infer (position ++ [0]) (expr (position ++ [0]) none left))
        (infer (position ++ [1]) (expr (position ++ [1]) none right))
      operationAt position op left right line type) := by
  have other : ¬ (op = .and || op = .or) = true := by
    change ¬ op.isLogical = true
    rw [plain]
    decide
  rw [expr, if_neg other]
  rfl

theorem exprs_cons (position : Position) (i : Nat) (element : Ty) (line : Nat) (e : Expr) (rest : List Expr) :
    exprs position i element line (e :: rest) = (do
      valueOf element e.line line (expr (position ++ [i]) (some element) e)
      exprs position (i + 1) element line rest) := by
  rw [exprs]

theorem store_index (position : Position) (line own : Nat) (emitted : Ty → Emission Unit) (object index : Expr) :
    store position line emitted (.index object index own) =
      store (position ++ [0]) line (withElement object index line (fun type => expr (position ++ [0]) type object)
        (fun type => expr (position ++ [1]) type index) emitted) object := by
  rw [store]

end Emission

end Covenant
