import Covenant.Code.Instruction
import Covenant.Policy
/-!
What code depends on: the fields of the receiver that it loads, and those of keys that it stores;
the records that it looks up; and the references that are followed on every way through it.
-/

namespace Covenant

def addNew (found : List String) (name : String) : List String :=
  if found.contains name then found else found ++ [name]

def firstUses (names : List String) : List String := names.foldl addNew []

namespace Line

/-- The field of the receiver that a line makes the outcome depend on. -/
def dependsOn? (this : RecordType) : Line → Option String
  | .instruction (.loadThis name) => some name
  | .instruction (.storeThis name) =>
    if this.field? name = some .publicKey then some name else none
  | _ => none

def looksUp? : Line → Option String
  | .instruction (.deref contract) => some contract
  | _ => none

end Line

namespace Code

def dependentFields (this : RecordType) (code : Code) : List String :=
  firstUses (code.filterMap (Line.dependsOn? this))

def lookedUp (code : Code) : List String := firstUses (code.filterMap Line.looksUp?)

end Code

namespace Term

mutual
/-- The fields whose references are followed whenever a term is evaluated, in order. -/
def followed : Term → List String
  | .literal _ _ | .slot _ | .field _ | .caller => []
  | .referenced _ (.field name) => [name]
  | .referenced _ reference => reference.followed
  | .member a _ | .arraySize a | .textSize a | .not a | .truth a | .negate _ a => a.followed
  | .element a b | .indexOf a b | .includes a b | .appended a b | .arith _ _ a b | .join a b
  | .compare _ a b => a.followed ++ b.followed
  | .array items => followedByItems items
  | .both a _ | .either a _ => a.followed

def followedByItems : List Term → List String
  | [] => []
  | t :: rest => t.followed ++ followedByItems rest
end

/-- The same for the replacement of the value at the end of a path. -/
def followedAlong (read value : Term) : List PathStep → List String
  | [] => value.followed
  | .member name :: rest => read.followed ++ followedAlong (.member read name) value rest
  | .element place :: rest =>
    read.followed ++ place.followed ++ followedAlong (.element read place) value rest

end Term

namespace Action

mutual
def leaves : Action → Bool
  | .sequence actions => leavesIn actions
  | .ifThen _ yes => yes.leaves
  | .ifElse _ yes no => yes.leaves || no.leaves
  | .loop _ body => body.leaves
  | .leave _ => true
  | .assign _ _ _ | .abort _ | .evaluate _ => false

def leavesIn : List Action → Bool
  | [] => false
  | a :: rest => a.leaves || leavesIn rest
end

mutual
/-- Whether an action leaves the function on some of its ways only: in a branch or a loop. -/
def mayLeave : Action → Bool
  | .sequence actions => mayLeaveIn actions
  | .ifThen _ yes => yes.leaves
  | .ifElse _ yes no => yes.leaves || no.leaves
  | .loop _ body => body.leaves
  | .leave _ | .assign _ _ _ | .abort _ | .evaluate _ => false

def mayLeaveIn : List Action → Bool
  | [] => false
  | a :: rest => a.mayLeave || mayLeaveIn rest
end

mutual
/-- The fields whose references are followed on every way through an action. -/
def followed : Action → List String
  | .sequence actions => followedByAll actions
  | .assign root path value => Term.followedAlong root.read value path
  | .ifThen condition _ | .ifElse condition _ _ | .loop condition _ => condition.followed
  | .leave none => []
  | .leave (some value) => value.followed
  | .abort message => message.followed
  | .evaluate value => value.followed

/-- What comes after an action that may leave the function is not on every way. -/
def followedByAll : List Action → List String
  | [] => []
  | a :: rest => a.followed ++ if a.mayLeave then [] else followedByAll rest
end

end Action

namespace Policy

/-- The field whose reference a policy rests on alone. -/
def followed : Policy → List String
  | .delegate via _ _ => [via]
  | _ => []

end Policy

end Covenant
