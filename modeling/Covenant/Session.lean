import Covenant.Report
/-!
A session: calls one after the other on a receiver that each successful call replaces. A call that
fails leaves the receiver as it was.
-/

namespace Covenant

/-- A call of a session, with members of the receiver to be set before it. -/
structure SessionStep where
  function : String
  call : Call
  set : Option Datum
  /-- the limit of steps, if it is valid -/
  limit : Option Nat

structure Session where
  receiver : Datum
  calls : Nat

namespace Session

mutual
/-- The datum with what one call computed marked as of that call. -/
def carried (call : Nat) : Datum → Datum
  | .float (.nan (.computed n)) => .float (.nan (.carried call n))
  | .list items => .list (carriedItems call items)
  | .record fields => .record (carriedFields call fields)
  | d => d

def carriedItems (call : Nat) : List Datum → List Datum
  | [] => []
  | d :: rest => carried call d :: carriedItems call rest

def carriedFields (call : Nat) : List (String × Datum) → List (String × Datum)
  | [] => []
  | (name, d) :: rest => (name, carried call d) :: carriedFields call rest
end

def withMembers (receiver : Datum) : Datum → Except Error Datum
  | .record members =>
    match receiver with
    | .record fields =>
      .ok (.record (members.foldl (fun fields m => setField m.1 m.2 fields) fields))
    | d => if d.isTrue then .error (.misuse .kind) else .ok (.record members)
  | _ => .error (.misuse .kind)

/-- Runs a linked function on the receiver. Faults of the call come before one of the limit. -/
def runOn (f : LinkedFunction) (receiver : Datum) (step : SessionStep) : Except Error Report := do
  let inputs ← readInputs f.abi { step.call with receiver := receiver }
  match step.limit with
  | none => .error .invalid
  | some limit => f.report inputs limit

/-- One call: its report or why it failed, and the session after it. -/
def step (source contract : String) (s : Session) (step : SessionStep) :
    Except Error Report × Session :=
  let next (receiver : Datum) : Session := ⟨receiver, s.calls + 1⟩
  match linkSource source contract step.function with
  | .error e => (.error e, next s.receiver)
  | .ok f =>
    match step.set.elim (.ok s.receiver) (withMembers s.receiver) with
    | .error e => (.error e, next s.receiver)
    | .ok receiver =>
      match runOn f receiver step with
      | .error e => (.error e, next receiver)
      | .ok report => (.ok report, next (carried s.calls report.receiver))

def run (source contract : String) (s : Session) : List SessionStep → List (Except Error Report)
  | [] => []
  | first :: rest =>
    let (report, s) := s.step source contract first
    report :: run source contract s rest

end Session

end Covenant
