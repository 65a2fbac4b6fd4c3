import Covenant.Code.Instruction
import Covenant.Key.Codec
import Covenant.Policy
/-!
The code of terms, actions and policies. Each piece of code is given the number of its first label;
how many labels a piece uses is counted beside it. The code of a term puts one value on the stack.
-/

namespace Covenant

def labelName (n : Nat) : String := "L" ++ Decimal.natural n

def Line.op (i : Instruction String) : Line := .instruction i

open Line (op)

namespace Term

mutual
def labels : Term → Nat
  | .literal _ _ | .slot _ | .field _ | .caller => 0
  | .member a _ | .referenced _ a | .arraySize a | .textSize a | .not a | .truth a
  | .negate _ a => a.labels
  | .element a b | .indexOf a b | .includes a b | .appended a b | .arith _ _ a b | .join a b
  | .compare _ a b => a.labels + b.labels
  | .array items => labelsOfItems items
  | .both a b | .either a b => 1 + a.labels + b.labels

def labelsOfItems : List Term → Nat
  | [] => 0
  | t :: rest => t.labels + labelsOfItems rest
end

mutual
/-- The code of a term whose labels are numbered from `n`. -/
def code (n : Nat) : Term → Code
  | .literal type value => [op (.push (.primitive type) value)]
  | .slot index => [op (.loadLocal index)]
  | .field name => [op (.loadThis name)]
  | .caller => [op (.loadContext "publicKey")]
  | .member record name => record.code n ++ [op (.getField name)]
  | .referenced contract reference => reference.code n ++ [op (.deref contract)]
  | .element whole place => whole.code n ++ place.code (n + whole.labels) ++ [op .arrayGet]
  | .array items => codeOfItems n items ++ [op (.arrayNew items.length)]
  | .arraySize whole => whole.code n ++ [op .arrayLength]
  | .textSize text => text.code n ++ [op .textLength]
  | .indexOf whole target =>
    whole.code n ++ target.code (n + whole.labels) ++ [op .arrayIndexOf]
  | .includes whole target =>
    whole.code n ++ target.code (n + whole.labels) ++ [op .arrayIncludes]
  | .appended whole item => whole.code n ++ item.code (n + whole.labels) ++ [op .arrayPush]
  | .not condition => condition.code n ++ [op .not]
  | .truth value => value.code n ++ [op .truthy]
  | .arith a type left right =>
    left.code n ++ right.code (n + left.labels) ++ [op (.arith a type)]
  | .negate type operand => operand.code n ++ [op (.arith .neg type)]
  | .join left right => left.code n ++ right.code (n + left.labels) ++ [op .concat]
  | .compare c left right => left.code n ++ right.code (n + left.labels) ++ [op (.compare c)]
  | .both left right =>
    left.code (n + 1) ++ [op .dup, op (.jumpIfFalse (labelName n)), op .drop] ++
      right.code (n + 1 + left.labels) ++ [.label (labelName n)]
  | .either left right =>
    left.code (n + 1) ++ [op .dup, op (.jumpIfTrue (labelName n)), op .drop] ++
      right.code (n + 1 + left.labels) ++ [.label (labelName n)]

def codeOfItems (n : Nat) : List Term → Code
  | [] => []
  | t :: rest => t.code n ++ codeOfItems (n + t.labels) rest
end

/-- How many labels are used for the whole with the value at the end of a path replaced. -/
def labelsAlong (read value : Term) : List PathStep → Nat
  | [] => value.labels
  | .member name :: rest => read.labels + labelsAlong (.member read name) value rest
  | .element place :: rest =>
    read.labels + place.labels + labelsAlong (.element read place) value rest

/-- The code for the whole that `read` reads, with the value at the end of a path replaced: each
container on the path is read, its part replaced, and the container put together again. -/
def codeAlong (n : Nat) (read value : Term) : List PathStep → Code
  | [] => value.code n
  | .member name :: rest =>
    read.code n ++ codeAlong (n + read.labels) (.member read name) value rest ++
      [op (.setField name)]
  | .element place :: rest =>
    read.code n ++ place.code (n + read.labels) ++
      codeAlong (n + read.labels + place.labels) (.element read place) value rest ++
      [op .arraySet]

end Term

namespace Root

def store : Root → Line
  | .slot index => op (.storeLocal index)
  | .field name => op (.storeThis name)

end Root

namespace Action

mutual
def labels : Action → Nat
  | .sequence actions => labelsOfAll actions
  | .assign root path value => Term.labelsAlong root.read value path
  | .ifThen condition yes => 1 + condition.labels + yes.labels
  | .ifElse condition yes no => 2 + condition.labels + yes.labels + no.labels
  | .loop condition body => 2 + condition.labels + body.labels
  | .leave none => 0
  | .leave (some value) => value.labels
  | .abort message => message.labels
  | .evaluate value => value.labels

def labelsOfAll : List Action → Nat
  | [] => 0
  | a :: rest => a.labels + labelsOfAll rest
end

mutual
def code (n : Nat) : Action → Code
  | .sequence actions => codeOfAll n actions
  | .assign root path value => Term.codeAlong n root.read value path ++ [root.store]
  | .ifThen condition yes =>
    condition.code (n + 1) ++ [op (.jumpIfFalse (labelName n))] ++
      yes.code (n + 1 + condition.labels) ++ [.label (labelName n)]
  | .ifElse condition yes no =>
    let last := n + 1 + condition.labels + yes.labels
    condition.code (n + 1) ++ [op (.jumpIfFalse (labelName n))] ++
      yes.code (n + 1 + condition.labels) ++
      [op (.jump (labelName last)), .label (labelName n)] ++
      no.code (last + 1) ++ [.label (labelName last)]
  | .loop condition body =>
    [.label (labelName n)] ++ condition.code (n + 2) ++
      [op (.jumpIfFalse (labelName (n + 1)))] ++ body.code (n + 2 + condition.labels) ++
      [op (.jump (labelName n)), .label (labelName (n + 1))]
  | .leave none => [op .leave]
  | .leave (some value) => value.code n ++ [op .leaveValue]
  | .abort message => message.code n ++ [op .abort]
  | .evaluate value => value.code n ++ [op .drop]

def codeOfAll (n : Nat) : List Action → Code
  | [] => []
  | a :: rest => a.code n ++ codeOfAll (n + a.labels) rest
end

end Action

namespace Policy

mutual
def labels : Policy → Nat
  | .anyone | .denied | .field _ | .key _ => 0
  | .delegate _ _ _ => 2
  | .anyOf policies => 2 + labelsOfAll policies

def labelsOfAll : List Policy → Nat
  | [] => 0
  | p :: rest => p.labels + labelsOfAll rest
end

def truth (b : Bool) : Line := op (.push (.primitive .boolean) (.boolean b))

mutual
/-- Code that pushes whether the caller satisfies a policy. An empty reference names no delegate;
of several policies the first one that is satisfied ends the check. -/
def code (n : Nat) : Policy → Code
  | .anyone => [truth true]
  | .denied => [truth false]
  | .field name => [op (.loadContext "publicKey"), op (.loadThis name), op .keyMatch]
  | .delegate holder contract delegateField =>
    [op (.loadContext "publicKey"), op (.loadThis holder), op .dup, op .truthy,
     op (.jumpIfFalse (labelName n)), op (.deref contract), op (.getField delegateField),
     op .keyMatch, op (.jump (labelName (n + 1))), .label (labelName n), op .drop, op .drop,
     truth false, .label (labelName (n + 1))]
  | .key k =>
    [op (.loadContext "publicKey"), op (.push .key (.text k.toHex)), op .keyMatch]
  | .anyOf policies =>
    codeOfAll (n + 2) (labelName n) policies ++
      [truth false, op (.jump (labelName (n + 1))), .label (labelName n), truth true,
       .label (labelName (n + 1))]

def codeOfAll (n : Nat) (satisfied : String) : List Policy → Code
  | [] => []
  | p :: rest =>
    p.code n ++ [op (.jumpIfTrue satisfied)] ++ codeOfAll (n + p.labels) satisfied rest
end

end Policy

end Covenant
