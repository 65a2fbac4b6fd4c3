import Covenant.Key.Curve
/-!
Who may call a function or read a record.
-/

namespace Covenant

inductive Policy
  /-- any caller, also one without a key -/
  | anyone
  | denied
  /-- the caller whose key the field holds -/
  | field (name : String)
  /-- the caller whose key the delegate field of the record holds that the field refers to -/
  | delegate (field contract delegateField : String)
  /-- the caller with this key -/
  | key (key : Key)
  | anyOf (policies : List Policy)
deriving Inhabited

namespace Policy

def isAnyone : Policy → Bool
  | .anyone => true
  | _ => false

/-- The policy that allows what one of the given ones allows. -/
def combine (policies : List Policy) : Policy :=
  if policies.any isAnyone then .anyone
  else match policies with
    | [] => .denied
    | [p] => p
    | ps => .anyOf ps

end Policy

end Covenant
