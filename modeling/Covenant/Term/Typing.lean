import Covenant.Schema
import Covenant.Term.Basic
import Covenant.Text.Digit
/-!
Type checking. The type of an expression is found from its parts, but a number literal takes the
numeric type that its surroundings expect, and an array literal the element type. In an operation
the left operand decides what the right one is expected to be, unless it is a literal number and the
right one is not.
-/

namespace Covenant

structure Scope where
  schema : Schema
  this : RecordType
  result : Option Ty
  /-- the types of all slots so far -/
  slots : List Ty
  /-- the names of the open blocks, the innermost first -/
  blocks : List (List (String × Nat))

namespace Scope

def lookup? (s : Scope) (name : String) : Option Nat :=
  s.blocks.findSome? fun block => block.lookup name

def slot (s : Scope) (name : String) (line : Nat) : Except CompileError (Nat × Ty) :=
  match s.lookup? name with
  | some index => .ok (index, s.slots.getD index .publicKey)
  | none => CompileError.throw (.unknownIdentifier name) line

def declare (s : Scope) (name : String) (type : Ty) (line : Nat) :
    Except CompileError (Nat × Scope) :=
  let block := s.blocks.headD []
  if (block.lookup name).isSome then CompileError.throw (.alreadyDeclared name) line
  else
    let index := s.slots.length
    .ok (index, { s with
      slots := s.slots ++ [type], blocks := ((name, index) :: block) :: s.blocks.tail })

def inner (s : Scope) : Scope := { s with blocks := [] :: s.blocks }

/-- Whether an expression is the name of the call's context, which a declared name hides. -/
def isContext (s : Scope) : Expr → Bool
  | .name "ctx" _ => (s.lookup? "ctx").isNone
  | _ => false

def field (s : Scope) (name : String) (line : Nat) : Except CompileError Ty :=
  match s.this.field? name with
  | some t => .ok t
  | none => CompileError.throw (.unknownField name) line

end Scope

/-- What an expression turns out to be: a term with its type, or an action without a value. -/
inductive Typed
  | value (term : Term) (type : Ty)
  | effect (action : Action)

namespace Typed

/-- Requires a value of the expression on a line. -/
def term (line : Nat) : Typed → Except CompileError (Term × Ty)
  | .value term type => .ok (term, type)
  | .effect _ => CompileError.throw .noValue line

/-- Requires a value of the given type; `own` is the line of the expression itself. -/
def termOf (expected : Ty) (own line : Nat) (t : Typed) : Except CompileError Term := do
  let (term, found) ← t.term own
  if expected = found then return term
  else CompileError.throw (.mismatch expected found) line

def condition (own line : Nat) (t : Typed) : Except CompileError Term := do
  let (term, found) ← t.term own
  if found = .boolean then return term
  else if found = .publicKey || found = .string || found.isNumeric then return .truth term
  else CompileError.throw (.conditionType found) line

def place (own line : Nat) (t : Typed) : Except CompileError Term := do
  let (term, found) ← t.term own
  if found.isInteger then return term else CompileError.throw (.placeType found) line

end Typed

namespace Expr

/-- A literal number, possibly negated: it has no type of its own. -/
def isUntyped : Expr → Bool
  | .number _ _ => true
  | .unary .negate (.number _ _) _ => true
  | _ => false

/-- The value of a literal number in the type that is expected, if that is numeric. -/
def literal (expected : Option Ty) (negative : Bool) (text : String) (line : Nat) :
    Except CompileError Typed :=
  let chars := text.toList
  let written := if negative then "-" ++ text else text
  let whole := chars.takeWhile (· != '.')
  let fraction := chars.drop (whole.length + 1)
  let hasPoint := chars.contains '.'
  let p := match expected.bind Ty.primitive? with
    | some p => if p.isNumeric then p else if hasPoint then .f64 else .i32
    | none => if hasPoint then .f64 else .i32
  if p.isFloat then
    let x := Decimal.toDouble negative (Decimal.value (whole ++ fraction)) (-fraction.length)
    let x := if p = .f32 then x.roundSingle .literal else x
    .ok (.value (.literal p (.float x)) (.primitive p))
  else if hasPoint then CompileError.throw (.fractionalLiteral p written) line
  else if Text.digitLimit < whole.length then CompileError.throw .literalSize line
  else
    let n : Int := Decimal.value whole
    let n := if negative then -n else n
    match p.range? with
    | some (low, high) =>
      if low ≤ n ∧ n ≤ high then .ok (.value (.literal p (.integer n)) (.primitive p))
      else CompileError.throw (.literalRange written p) line
    | none => CompileError.throw (.literalRange written p) line

/-- A member of a value: the size of an array or a text, or a field of a record, which a reference
is replaced by. -/
def memberOf (s : Scope) (term : Term) (type : Ty) (word : String) (line : Nat) :
    Except CompileError Typed :=
  match type with
  | .array _ =>
    if word = "length" then .ok (.value (.arraySize term) .u32)
    else CompileError.throw (.noSuchField type word) line
  | .primitive .string =>
    if word = "length" then .ok (.value (.textSize term) .u32)
    else CompileError.throw (.noSuchField type word) line
  | .reference contract => do
    let record ← s.schema.record contract
    match record.type.field? word with
    | some t => return .value (.member (.referenced contract term) word) t
    | none => CompileError.throw (.unknownReferencedField contract word) line
  | .struct _ fields =>
    match fields.lookup word with
    | some t => .ok (.value (.member term word) t)
    | none => CompileError.throw (.unknownField word) line
  | _ => CompileError.throw (.noSuchField type word) line

/-- The operator on terms that a binary operator on operands of one type stands for. -/
def operation (op : BinaryOp) (type : Ty) (left right : Term) (line : Nat) :
    Except CompileError Typed :=
  let compared (c : Comparison) := Typed.value (.compare c left right) .boolean
  let ordered (c : Comparison) : Except CompileError Typed :=
    if type.isNumeric || type = .string then .ok (compared c)
    else CompileError.throw (.unordered type) line
  let computed (a : Arith) : Except CompileError Typed :=
    match type with
    | .primitive p =>
      if p.isNumeric then .ok (.value (.arith a p left right) type)
      else CompileError.throw (.undefinedOperator op.text type) line
    | _ => CompileError.throw (.undefinedOperator op.text type) line
  match op with
  | .equal => .ok (compared .equal)
  | .notEqual => .ok (compared .notEqual)
  | .less => ordered .less
  | .lessEqual => ordered .lessEqual
  | .greater => ordered .greater
  | .greaterEqual => ordered .greaterEqual
  | .add => if type = .string then .ok (.value (.join left right) type) else computed .add
  | .sub => computed .sub
  | .mul => computed .mul
  | .div => computed .div
  | .mod => computed .mod
  | .and => .ok (.value (.both left right) .boolean)
  | .or => .ok (.value (.either left right) .boolean)

/-- The type that two literal numbers get from the surroundings of their operation. -/
def literalType (op : BinaryOp) (expected : Option Ty) : Option Ty :=
  if 4 ≤ op.level then expected.filter fun t => t.isNumeric || t = .string else none

structure Target where
  root : Root
  path : List PathStep
  read : Term
  type : Ty

def Target.ofRoot (root : Root) (type : Ty) : Target := ⟨root, [], root.read, type⟩

def Target.step (t : Target) (step : PathStep) (type : Ty) : Target :=
  ⟨t.root, t.path ++ [step], step.read t.read, type⟩

mutual
def typed (s : Scope) (expected : Option Ty) : Expr → Except CompileError Typed
  | .number text line => literal expected false text line
  | .string value _ => .ok (.value (.literal .string (.text value)) .string)
  | .boolean value _ => .ok (.value (.literal .boolean (.boolean value)) .boolean)
  | .array items line =>
    match expected, items with
    | some (.array element), items => do
      return .value (.array (← typedItems s element line items)) (.array element)
    | _, [] => CompileError.throw .emptyArray line
    | _, first :: rest => do
      let (term, element) ← (← typed s none first).term first.line
      return .value (.array (term :: (← typedItems s element line rest))) (.array element)
  | e@(.name word line) =>
    if s.isContext e then CompileError.throw .contextAlone line
    else do
      let (slot, type) ← s.slot word line
      return .value (.slot slot) type
  | .this line => CompileError.throw .thisAlone line
  | .member (.this _) word line => return .value (.field word) (← s.field word line)
  | .member object word line =>
    if s.isContext object then
      if word = "publicKey" then .ok (.value .caller .publicKey)
      else CompileError.throw (.contextAttribute word) line
    else do
      let (term, type) ← (← typed s none object).term object.line
      memberOf s term type word line
  | .index object place line => do
    let (term, type) ← (← typed s none object).term object.line
    match type with
    | .array element =>
      return .value (.element term (← (← typed s (some .u32) place).place place.line line)) element
    | _ => CompileError.throw (.notArray type) line
  | .method object word [argument] line =>
    if word = "indexOf" || word = "includes" then do
      let (term, type) ← (← typed s none object).term object.line
      match type with
      | .array element =>
        let target ← (← typed s (some element) argument).termOf element argument.line line
        if word = "indexOf" then return .value (.indexOf term target) .i32
        else return .value (.includes term target) .boolean
      | _ => CompileError.throw (.arraysOnly word) line
    else if word = "push" then do
      let target ← targeted s line object
      match target.type with
      | .array element =>
        let item ← (← typed s (some element) argument).termOf element argument.line line
        return .effect (.assign target.root target.path (.appended target.read item))
      | _ => CompileError.throw (.arraysOnly word) line
    else CompileError.throw (.unknownMethod word) line
  | .method _ word _ line =>
    if ["indexOf", "includes", "push"].contains word then
      CompileError.throw (.argumentCount word) line
    else CompileError.throw (.unknownMethod word) line
  | .call word [argument] line =>
    if word = "error" then do
      return .effect (.abort
        (← (← typed s (some .string) argument).termOf .string argument.line line))
    else CompileError.throw (.unknownFunction word) line
  | .call word _ line =>
    if word = "error" then CompileError.throw (.argumentCount word) line
    else CompileError.throw (.unknownFunction word) line
  | .unary .not operand line => do
    let condition ← (← typed s (some .boolean) operand).condition operand.line line
    return .value (.not condition) .boolean
  | .unary .negate (.number text line) _ => literal expected true text line
  | .unary .negate operand line => do
    let (term, type) ← (← typed s expected operand).term operand.line
    match type with
    | .primitive p =>
      if p.isSigned then return .value (.negate p term) type
      else CompileError.throw (.notNegatable type) line
    | _ => CompileError.throw (.notNegatable type) line
  | .binary op left right line =>
    if op = .and || op = .or then do
      let a ← (← typed s (some .boolean) left).condition left.line line
      let b ← (← typed s (some .boolean) right).condition right.line line
      operation op .boolean a b line
    else if !left.isUntyped then do
      match ← typed s none left with
      | .value a type =>
        let b ← (← typed s (some type) right).termOf type right.line line
        operation op type a b line
      | .effect _ =>
        if !right.isUntyped then let _ ← typed s none right
        CompileError.throw .noValue left.line
    else do
      let found ← if right.isUntyped then pure none else do
        match ← typed s none right with
        | .value b type => pure (some (b, type))
        | .effect _ => pure none
      match found with
      | some (b, type) =>
        let a ← (← typed s (some type) left).termOf type left.line line
        operation op type a b line
      | none =>
        let (a, own) ← (← typed s (literalType op expected) left).term left.line
        let type := (literalType op expected).getD own
        if type = own then
          let b ← (← typed s (some type) right).termOf type right.line line
          operation op type a b line
        else CompileError.throw (.mismatch type own) line

def typedItems (s : Scope) (element : Ty) (line : Nat) :
    List Expr → Except CompileError (List Term)
  | [] => return []
  | e :: rest => do
    let term ← (← typed s (some element) e).termOf element e.line line
    return term :: (← typedItems s element line rest)

def targeted (s : Scope) (line : Nat) : Expr → Except CompileError Target
  | e@(.name word _) =>
    if s.isContext e then CompileError.throw .contextTarget line
    else do
      let (slot, type) ← s.slot word line
      return .ofRoot (.slot slot) type
  | .member (.this _) word _ => return .ofRoot (.field word) (← s.field word line)
  | .member object word _ =>
    if s.isContext object then CompileError.throw .contextTarget line
    else do
      let whole ← targeted s line object
      match whole.type with
      | .reference contract => CompileError.throw (.referencedTarget contract) line
      | .struct _ fields =>
        match fields.lookup word with
        | some type => return whole.step (.member word) type
        | none => CompileError.throw (.unknownField word) line
      | type => CompileError.throw (.noFields type) line
  | .index object place _ => do
    let whole ← targeted s line object
    match whole.type with
    | .array element =>
      return whole.step (.element (← (← typed s (some .u32) place).place place.line line)) element
    | type => CompileError.throw (.notArray type) line
  | _ => CompileError.throw .target line
end

end Expr

namespace Stmt

def combined (op : AssignOp) (type : Ty) (old value : Term) (line : Nat) :
    Except CompileError Term :=
  let computed (a : Arith) : Except CompileError Term :=
    match type with
    | .primitive p =>
      if p.isNumeric then .ok (.arith a p old value)
      else CompileError.throw (.undefinedOperator op.text type) line
    | _ => CompileError.throw (.undefinedOperator op.text type) line
  match op with
  | .set => .ok value
  | .add => if type = .string then .ok (.join old value) else computed .add
  | .sub => computed .sub

def returned (s : Scope) (line : Nat) : Option Expr → Except CompileError (Option Term)
  | none =>
    match s.result with
    | none => .ok none
    | some type => CompileError.throw (.missingResult type) line
  | some e =>
    match s.result with
    | none => CompileError.throw .noResultType line
    | some type => return some (← (← e.typed s (some type)).termOf type e.line line)

mutual
/-- The action of a statement, and the scope after it. -/
def typed (s : Scope) : Stmt → Except CompileError (Action × Scope)
  | .block statements _ => do
    let (actions, after) ← typedAll s.inner statements
    return (.sequence actions, { after with blocks := s.blocks })
  | .declare name type value line => do
    match type with
    | some written =>
      let type ← s.schema.resolve line written
      let term ← (← value.typed s (some type)).termOf type value.line line
      let (index, s) ← s.declare name type line
      return (.assign (.slot index) [] term, s)
    | none =>
      let (term, type) ← (← value.typed s none).term value.line
      let (index, s) ← s.declare name type line
      return (.assign (.slot index) [] term, s)
  | .assign target op value line => do
    let target ← target.targeted s line
    let term ← (← value.typed s (some target.type)).termOf target.type value.line line
    return (.assign target.root target.path (← combined op target.type target.read term line), s)
  | .ifThen condition yes line => do
    let condition ← (← condition.typed s (some .boolean)).condition condition.line line
    let (yes, s) ← typed s yes
    return (.ifThen condition yes, s)
  | .ifElse condition yes no line => do
    let condition ← (← condition.typed s (some .boolean)).condition condition.line line
    let (yes, s) ← typed s yes
    let (no, s) ← typed s no
    return (.ifElse condition yes no, s)
  | .loop condition body line => do
    let condition ← (← condition.typed s (some .boolean)).condition condition.line line
    let (body, s) ← typed s body
    return (.loop condition body, s)
  | .leave value line => return (.leave (← returned s line value), s)
  | .evaluate value _ => do
    match ← value.typed s none with
    | .value term _ => return (.evaluate term, s)
    | .effect action => return (action, s)

def typedAll (s : Scope) : List Stmt → Except CompileError (List Action × Scope)
  | [] => return ([], s)
  | first :: rest => do
    let (action, s) ← typed s first
    let (actions, s) ← typedAll s rest
    return (action :: actions, s)
end

end Stmt

end Covenant
