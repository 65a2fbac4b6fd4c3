import Covenant.Text.Composed.Decomposition
import Covenant.Text.Composed.CombiningClass
/-!
The canonical composed form of text: every character is decomposed, marks are put into order after
their base, and pairs are composed again where that is allowed.
-/

namespace Covenant.Text

/-- The first syllable of the Hangul block, and the first leading consonant, vowel and trailing
consonant; no trailing consonant counts as the first of twenty-eight. -/
def hangulBase : Nat := 0xac00

def leadBase : Nat := 0x1100

def vowelBase : Nat := 0x1161

def trailBase : Nat := 0x11a7

def hangulCount : Nat := 11172

/-- A code point fully decomposed. Decompositions are at most four deep. -/
def decomposeAll : Nat → Nat → List Nat
  | 0, n => [n]
  | fuel + 1, n =>
    if n < 0xc0 then [n]
    else if hangulBase ≤ n ∧ n < hangulBase + hangulCount then
      let s := n - hangulBase
      let lead := leadBase + s / 588
      let vowel := vowelBase + s % 588 / 28
      if s % 28 = 0 then [lead, vowel] else [lead, vowel, trailBase + s % 28]
    else match decomposedPairs.find? fun d => d.1 == n with
      | some d => decomposeAll fuel d.2.1 ++ decomposeAll fuel d.2.2
      | none => match decomposedSingles.find? fun d => d.1 == n with
        | some d => decomposeAll fuel d.2
        | none => [n]

/-- A mark put before the marks of higher class at the end of a text that is kept reversed. -/
def insertMark (mark : Nat) (cls : Nat) : List Nat → List Nat
  | [] => [mark]
  | n :: rest =>
    if cls < combiningClass n then n :: insertMark mark cls rest else mark :: n :: rest

/-- Each run of marks sorted by class, marks of one class keeping their order. -/
def orderMarks (s : List Nat) : List Nat :=
  (s.foldl (fun reversed n =>
    let cls := combiningClass n
    if cls = 0 then n :: reversed else insertMark n cls reversed) []).reverse

def composePair (a b : Nat) : Option Nat :=
  if leadBase ≤ a ∧ a < leadBase + 19 ∧ vowelBase ≤ b ∧ b < vowelBase + 21 then
    some (hangulBase + (a - leadBase) * 588 + (b - vowelBase) * 28)
  else if hangulBase ≤ a ∧ a < hangulBase + hangulCount ∧ (a - hangulBase) % 28 = 0 ∧
      trailBase < b ∧ b < trailBase + 28 then
    some (a + (b - trailBase))
  else if b < 0x300 then none
  else
    (decomposedPairs.find? fun d =>
      d.2.1 == a && d.2.2 == b && !compositionExclusions.contains d.1).map (·.1)

/-- Composition from the left: `base` is the last base and `marks` what follows it uncomposed,
reversed; a code point composes with the base unless something of its class or higher stands
between. -/
def composeFrom : Nat → List Nat → List Nat → List Nat
  | base, marks, [] => base :: marks.reverse
  | base, marks, n :: rest =>
    let cls := combiningClass n
    let free := match marks with
      | [] => true
      | last :: _ => combiningClass last < cls
    match if free then composePair base n else none with
    | some c => composeFrom c marks rest
    | none =>
      if cls = 0 then base :: marks.reverse ++ composeFrom n [] rest
      else composeFrom base (n :: marks) rest

/-- Composition of a text; what stands before the first base is left alone. -/
def compose : List Nat → List Nat
  | [] => []
  | n :: rest => if combiningClass n = 0 then composeFrom n [] rest else n :: compose rest

def composed (s : String) : String :=
  let chars := s.toList
  if chars.all fun c => c.toNat < 0xc0 then s
  else
    let points := orderMarks (chars.flatMap fun c => decomposeAll 8 c.toNat)
    String.ofList ((compose points).map Char.ofNat)

end Covenant.Text
