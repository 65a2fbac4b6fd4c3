import Covenant.Proofs.Key.Codec
import Covenant.Proofs.Syntax.Names
import Covenant.Text.Composed
/-!
Text that is in composed form as it is: names, and digits of keys.
-/

namespace Covenant

namespace Text

/-- A text of characters none of which can be decomposed. -/
def IsPlain (s : String) : Prop := ∀ c ∈ s.toList, c.toNat < 0xc0

theorem all_iff_isPlain {s : String} : (s.toList.all fun c => c.toNat < 0xc0) = true ↔ IsPlain s := by
  simp only [List.all_eq_true, decide_eq_true_eq, IsPlain]

instance : DecidablePred IsPlain := fun _ => decidable_of_iff _ all_iff_isPlain

theorem composed_of_isPlain {s : String} (h : IsPlain s) : composed s = s := if_pos (all_iff_isPlain.mpr h)

end Text

theorem Lexeme.IsName.isPlain {name : String} (h : IsName name.toList) : Text.IsPlain name := by
  intro c hc
  have part := h.2 c hc
  simp only [isNamePart, isNameStart, isDigit, Bool.or_eq_true, Bool.and_eq_true, decide_eq_true_eq,
    beq_iff_eq] at part
  have bound : ∀ {last : Char}, last.toNat < 0xc0 → c ≤ last → c.toNat < 0xc0 :=
    fun small le => Nat.lt_of_le_of_lt (UInt32.le_iff_toNat_le.mp le) small
  rcases part with ((⟨-, le⟩ | ⟨-, le⟩) | rfl) | ⟨-, le⟩
  · exact bound (by decide) le
  · exact bound (by decide) le
  · decide
  · exact bound (by decide) le

theorem Key.isPlain_toHex (k : Key) : Text.IsPlain k.toHex := by
  intro c hc
  rw [toHex, Text.hex, String.toList_ofList] at hc
  exact Nat.lt_trans (Text.isHexDigit_of_mem hc).ascii (by decide)

end Covenant
