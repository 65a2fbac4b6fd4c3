import Covenant.Proofs.Code.Flow
import Covenant.Proofs.Code.Heights
/-!
Code that keeps the stack in order.

* `Balanced`: a piece of code leads from one height of the stack to another;
* `checkStack_of_balanced`: balanced code whose last line leaves the function passes the check of the
  stack once it is linked.
-/

namespace Covenant

/-- What an instruction makes of the height of the stack when there are the values that it takes. -/
def Instruction.Raises {Target : Type} (i : Instruction Target) (h k : Nat) : Prop :=
  i.pops ≤ h ∧ k = h - i.pops + i.pushes

namespace Code

/-- A piece of code leads from one height to another, labels elsewhere having the known heights. -/
abbrev Balanced (known : List (String × Nat)) (h : Nat) (code : Code) (k : Nat) : Prop :=
  Leads Instruction.Raises known h code k

/-- Balanced code that ends by leaving the function passes the check of the stack. -/
theorem checkStack_of_balanced {abi : Abi} {header : Header} {front : Code} {last : Instruction String}
    {k : Nat} {linked : List (Instruction Nat)}
    (balanced : Balanced [] 0 (front ++ [.op last]) k) (leaves : last.isLast = true)
    (nodup : (labelNames (front ++ [.op last])).Nodup)
    (hl : linkAll abi header (marks 0 (front ++ [.op last])).reverse (front ++ [.op last]) =
      .ok linked) : LinkedCode.checkStack linked.toArray = .ok () := by
  obtain ⟨heights, each, first⟩ := exists_levels balanced leaves nodup hl
  refine LinkedCode.checkStack_of_level (fun p h hp => ?_) first
  obtain ⟨i, j, made, hj, here, ⟨enough, height⟩, next⟩ := each p h hp
  have shape := linkInstruction_shape hj
  refine ⟨j, here, by rw [shape.pops]; exact enough, fun q hq => ?_⟩
  rw [shape.pops, shape.pushes, ← height]
  exact next q hq

end Code

end Covenant
