import Covenant.Proofs.Key.Codec
import Covenant.Proofs.Key.Field
/-!
The forms of keys agree with each other, when they are read with exact knowledge of the points of the
curve.

* `Points.Exact`: all points with coordinates below the prime are known, and each of them is found by its
  first coordinate and the parity of the second one;
* `Encoding`, `Encoding.read`, `Encoding.Denotes`: a form with something in it, how it is read, and the
  coordinates that it writes;
* `Encoding.denotes_of_read`: what is read is a point, the one that is written;
* `Encoding.Denotes.unique`: at most one is written;
* `key_encodings_agree`: every point is read back from each form, only points are read at all, and they
  are the same just when the points are;
* `reduced_exact`: the points by their equation and their roots are known exactly.
-/

namespace Covenant

/-- Exact knowledge of the points of the curve. -/
structure Points.Exact (points : Points) : Prop where
  has_iff : ∀ x y, points.has x y = true ↔ Key.OnCurve x y
  sound : ∀ odd x k, points.withParity? odd x = some k →
    k.x.val = x ∧ Key.OnCurve k.x.val k.y.val ∧ (k.y.val % 2 = 1 ↔ odd = true)
  complete : ∀ odd x y, Key.OnCurve x y → (y % 2 = 1 ↔ odd = true) →
    ∃ k, points.withParity? odd x = some k

namespace Key

/-! ## What is written -/

/-- Bytes that write the coordinates of a point: both of them, or the parity of the second and the
first. -/
inductive BytesDenote (b : Bytes) (x y : Nat) : Prop
  | pair (first second : Bytes) (whole : b = first ++ second) (size : first.length = 32)
      (size' : second.length = 32) (hx : x = ofBytes first) (hy : y = ofBytes second)
  | compressed (sign : UInt8) (first : Bytes) (whole : b = sign :: first) (size : first.length = 32)
      (form : sign = 2 ∨ sign = 3) (hx : x = ofBytes first) (point : OnCurve x y)
      (parity : y % 2 = 1 ↔ sign = 3)

/-- Hexadecimal digits of such bytes, perhaps with their sign before them and blanks around them. -/
def DigitsDenote (s : String) (x y : Nat) : Prop :=
  ∃ b, Text.readHex (dropHexSign (Text.trim s.toList)) = .ok b ∧ BytesDenote b x y

/-- Such digits after the scheme of literals. -/
def LiteralDenotes (s : String) (x y : Nat) : Prop := ∃ t : String, s = "eth#" ++ t ∧ DigitsDenote t x y

/-- A text is taken for a literal where it has the mark of one. -/
def TextDenotes (s : String) (x y : Nat) : Prop :=
  if s.toList.contains '#' then LiteralDenotes s x y else DigitsDenote s x y

/-- Members with both coordinates in base 64. -/
def RecordDenotes (fields : Fields) (x y : Nat) : Prop :=
  ∃ s t first second, fields.lookup "x" = some (.text s) ∧ fields.lookup "y" = some (.text t) ∧
    Text.Base64.readLenient s.toList = .ok first ∧ Text.Base64.readLenient t.toList = .ok second ∧
    first.length = 32 ∧ second.length = 32 ∧ x = ofBytes first ∧ y = ofBytes second

/-- Something that is to be read as a key, in one form or in whichever it has. -/
inductive Encoding
  | record (d : Datum)
  | digits (s : String)
  | literal (s : String)
  | any (d : Datum)

namespace Encoding

def read (points : Points) : Encoding → Except KeyFault (Option Key)
  | .record d => (readDatum points d).map some
  | .digits s => (readHex points s).map some
  | .literal s => (readLiteral points s).map some
  | .any d => readAny points d

def Denotes : Encoding → Nat → Nat → Prop
  | .record (.record fields) | .any (.record fields) => RecordDenotes fields
  | .digits s => DigitsDenote s
  | .literal s => LiteralDenotes s
  | .any (.text s) => TextDenotes s
  | .record _ | .any _ => fun _ _ => False

/-- Nothing written, but a key already. -/
def IsKey : Encoding → Prop
  | .any (.key _) => True
  | _ => False

end Encoding

/-! ## At most one point is written -/

variable {x y x' y' : Nat}

theorem BytesDenote.unique {b : Bytes} (h : BytesDenote b x y) (h' : BytesDenote b x' y') :
    x = x' ∧ y = y' := by
  cases h with
  | pair first second whole size size' hx hy =>
    cases h' with
    | pair first' second' whole' size₁ size₂ hx' hy' =>
      obtain ⟨rfl, rfl⟩ := List.append_inj (whole.symm.trans whole') (size.trans size₁.symm)
      exact ⟨hx.trans hx'.symm, hy.trans hy'.symm⟩
    | compressed sign first' whole' size₁ =>
      have lengths := congrArg List.length (whole.symm.trans whole')
      rw [List.length_append, List.length_cons, size, size', size₁] at lengths
      omega
  | compressed sign first whole size form hx point parity =>
    cases h' with
    | pair first' second' whole' size₁ size₂ =>
      have lengths := congrArg List.length (whole.symm.trans whole')
      rw [List.length_append, List.length_cons, size, size₁, size₂] at lengths
      omega
    | compressed sign' first' whole' size' form' hx' point' parity' =>
      obtain ⟨rfl, rfl⟩ := List.cons.inj (whole.symm.trans whole')
      obtain rfl := hx.trans hx'.symm
      -- the parities are those that the one sign says, so the points are one
      have same : y % 2 = 1 ↔ y' % 2 = 1 := parity.trans parity'.symm
      exact ⟨rfl, point.eq_of_parity point' (by omega)⟩

theorem DigitsDenote.unique {s : String} (h : DigitsDenote s x y) (h' : DigitsDenote s x' y') :
    x = x' ∧ y = y' := by
  obtain ⟨b, digits, denotes⟩ := h
  obtain ⟨b', digits', denotes'⟩ := h'
  obtain rfl := Except.ok.inj (digits.symm.trans digits')
  exact denotes.unique denotes'

theorem LiteralDenotes.unique {s : String} (h : LiteralDenotes s x y) (h' : LiteralDenotes s x' y') :
    x = x' ∧ y = y' := by
  obtain ⟨t, rfl, denotes⟩ := h
  obtain ⟨t', same, denotes'⟩ := h'
  obtain rfl := String.append_right_inj _ |>.mp same
  exact denotes.unique denotes'

theorem TextDenotes.unique {s : String} (h : TextDenotes s x y) (h' : TextDenotes s x' y') :
    x = x' ∧ y = y' := by
  unfold TextDenotes at h h'
  split at h
  next marked =>
    rw [if_pos marked] at h'
    exact h.unique h'
  next unmarked =>
    rw [if_neg unmarked] at h'
    exact h.unique h'

theorem RecordDenotes.unique {fields : Fields} (h : RecordDenotes fields x y)
    (h' : RecordDenotes fields x' y') : x = x' ∧ y = y' := by
  obtain ⟨s, t, first, second, hs, ht, readS, readT, -, -, rfl, rfl⟩ := h
  obtain ⟨s', t', first', second', hs', ht', readS', readT', -, -, rfl, rfl⟩ := h'
  cases hs.symm.trans hs'
  cases ht.symm.trans ht'
  cases readS.symm.trans readS'
  cases readT.symm.trans readT'
  exact ⟨rfl, rfl⟩

theorem Encoding.Denotes.unique {e : Encoding} (h : e.Denotes x y) (h' : e.Denotes x' y') :
    x = x' ∧ y = y' := by
  cases e with
  | record d =>
    cases d with
    | record fields => exact RecordDenotes.unique h h'
    | _ => cases h
  | digits s => exact DigitsDenote.unique h h'
  | literal s => exact LiteralDenotes.unique h h'
  | any d =>
    cases d with
    | record fields => exact RecordDenotes.unique h h'
    | text s => exact TextDenotes.unique h h'
    | _ => cases h

/-! ## What is read is written -/

section
variable {points : Points} (exact : points.Exact) {k : Key}
include exact

theorem denotes_of_readPair {first second : Bytes} (h : readPair points first second = .ok k) :
    OnCurve k.x.val k.y.val ∧ first.length = 32 ∧ second.length = 32 ∧ k.x.val = ofBytes first ∧
      k.y.val = ofBytes second := by
  obtain ⟨size, size', hx, hy, known⟩ := readPair_eq_ok.mp h
  rw [← hx, ← hy] at known
  exact ⟨(exact.has_iff _ _).mp known, size, size', hx, hy⟩

theorem denotes_of_readBytes {b : Bytes} (h : readBytes points b = .ok k) :
    OnCurve k.x.val k.y.val ∧ BytesDenote b k.x.val k.y.val := by
  rcases readBytes_eq_ok.mp h with ⟨whole, pair⟩ | ⟨sign, first, rfl, size, form, found⟩
  · obtain ⟨point, size, size', hx, hy⟩ := denotes_of_readPair exact pair
    exact ⟨point, .pair _ _ (List.take_append_drop 32 b).symm size size' hx hy⟩
  · obtain ⟨hx, point, parity⟩ := exact.sound _ _ _ found
    refine ⟨point, .compressed sign first rfl size form hx point ?_⟩
    rw [parity, decide_eq_true_eq]

theorem denotes_of_readHex {s : String} (h : readHex points s = .ok k) :
    OnCurve k.x.val k.y.val ∧ DigitsDenote s k.x.val k.y.val := by
  obtain ⟨b, digits, bytes⟩ := readHex_eq_ok.mp h
  obtain ⟨point, denotes⟩ := denotes_of_readBytes exact bytes
  exact ⟨point, b, digits, denotes⟩

theorem denotes_of_readLiteral {s : String} (h : readLiteral points s = .ok k) :
    OnCurve k.x.val k.y.val ∧ LiteralDenotes s k.x.val k.y.val := by
  obtain ⟨t, rfl, digits⟩ := readLiteral_eq_ok.mp h
  obtain ⟨point, denotes⟩ := denotes_of_readHex exact digits
  exact ⟨point, t, rfl, denotes⟩

theorem denotes_of_readRecord {fields : Fields} (h : readRecord points fields = .ok k) :
    OnCurve k.x.val k.y.val ∧ RecordDenotes fields k.x.val k.y.val := by
  obtain ⟨s, t, first, second, hs, ht, readS, readT, pair⟩ := readRecord_eq_ok h
  obtain ⟨point, size, size', hx, hy⟩ := denotes_of_readPair exact pair
  exact ⟨point, s, t, first, second, hs, ht, readS, readT, size, size', hx, hy⟩

/-- What is read, and was no key before, is the point that is written. -/
theorem Encoding.denotes_of_read {e : Encoding} (written : ¬ e.IsKey)
    (h : e.read points = .ok (some k)) :
    OnCurve k.x.val k.y.val ∧ e.Denotes k.x.val k.y.val := by
  have given : ∀ {r : Except KeyFault Key}, r.map some = .ok (some k) → r = .ok k := by
    intro r hr
    cases r <;> cases hr
    rfl
  cases e with
  | record d =>
    replace h := given h
    cases d with
    | record fields => exact denotes_of_readRecord exact h
    | _ => cases h
  | digits s => exact denotes_of_readHex exact (given h)
  | literal s => exact denotes_of_readLiteral exact (given h)
  | any d =>
    cases d with
    | record fields => exact denotes_of_readRecord exact (given h)
    | text s =>
      replace h := given h
      change _ ∧ TextDenotes s k.x.val k.y.val
      unfold TextDenotes
      split at h
      next marked =>
        rw [if_pos marked]
        exact denotes_of_readLiteral exact h
      next unmarked =>
        rw [if_neg unmarked]
        exact denotes_of_readHex exact h
    | key => exact absurd trivial written
    | _ => cases h

/-! ## What is written is read -/

/-- A point is read back from its first coordinate and the parity of the second one. -/
theorem readHex_toCompressedHex (point : OnCurve k.x.val k.y.val) :
    readHex points k.toCompressedHex = .ok k := by
  have sign : ∃ sign : UInt8, UInt8.ofNat (2 + k.y.val % 2) = sign ∧ (sign = 2 ∨ sign = 3) ∧
      (k.y.val % 2 = 1 ↔ sign = 3) := by
    rcases Nat.mod_two_eq_zero_or_one k.y.val with even | odd
    · rw [even]
      exact ⟨2, rfl, .inl rfl, by decide⟩
    · rw [odd]
      exact ⟨3, rfl, .inr rfl, by decide⟩
  obtain ⟨sign, same, form, parity⟩ := sign
  obtain ⟨k', found⟩ := exact.complete (sign = 3) _ _ point (by rw [parity, decide_eq_true_eq])
  obtain ⟨hx, point', parity'⟩ := exact.sound _ _ _ found
  -- the point that is found is the one that was written
  have one : k' = k := by
    rw [hx] at point'
    rw [decide_eq_true_eq, ← parity] at parity'
    have hy := point'.eq_of_parity point (by omega)
    cases k
    cases k'
    congr
    · exact Fin.ext hx
    · exact Fin.ext hy
  rw [toCompressedHex, same, readHex_hex, readBytes_eq_ok]
  refine .inr ⟨sign, _, rfl, length_coordinateBytes k.x, form, ?_⟩
  rw [ofBytes_coordinateBytes, found, one]

end

section
variable {points : Points}

/-- Digits are not taken for a literal. -/
theorem readAny_hex (bytes : Bytes) :
    readAny points (.text (Text.hex bytes)) = (readHex points (Text.hex bytes)).map some := by
  have unmarked : (Text.hex bytes).toList.contains '#' = false := by
    rw [Text.hex, String.toList_ofList, List.contains_eq_mem, decide_eq_false_iff_not]
    intro mark
    exact (Text.isHexDigit_of_mem mark).notMark rfl
  rw [readAny, unmarked, if_neg Bool.false_ne_true]

/-- A literal is taken for one. -/
theorem readAny_literal (t : String) :
    readAny points (.text ("eth#" ++ t)) = (readLiteral points ("eth#" ++ t)).map some := by
  rw [readAny, if_pos]
  simp

end

/-! ## Exact knowledge -/

/-- Those who go by the equation, with coordinates below the prime, and by roots. -/
def reducedPoints : Points where
  has x y := decide (OnCurve x y)
  withParity? := ofCompressed?

theorem ofCompressed?_eq_some {odd : Bool} {x : Nat} {k : Key} (h : ofCompressed? odd x = some k) :
    k.x.val = x ∧ OnCurve k.x.val k.y.val ∧ (k.y.val % 2 = 1 ↔ odd = true) := by
  have large : 1 < fieldPrime := by decide
  have odd_prime : fieldPrime % 2 = 1 := by decide
  unfold ofCompressed? at h
  dsimp only at h
  split at h
  next small =>
    obtain ⟨hx, hy, known⟩ := accepted?_eq_some.mp h
    rw [← hy, ← hx, onCurve_eq_true] at known
    have below : power fieldPrime ((x * x * x + 7) % fieldPrime) 256 ((fieldPrime + 1) / 4) <
        fieldPrime := by
      rw [power_eq large _ _ _ (by decide)]
      exact Nat.mod_lt _ (by decide)
    revert hy below
    generalize power fieldPrime ((x * x * x + 7) % fieldPrime) 256 ((fieldPrime + 1) / 4) = root
    intro hy below
    -- the opposite of zero would be the prime itself, which is no coordinate of a point
    have nonzero : k.y.val % fieldPrime ≠ 0 := by
      intro zero
      apply cube_add_ne_zero k.x.val
      rw [← known, pow_two, Nat.mul_mod, zero, Nat.zero_mul, Nat.zero_mod]
    split at hy
    next parity =>
      rw [beq_iff_eq] at parity
      refine ⟨hx, ⟨hx ▸ small, hy ▸ below, known⟩, ?_⟩
      rw [hy, ← parity, beq_iff_eq]
    next parity =>
      have second : k.y.val < fieldPrime := by
        by_contra reached
        apply nonzero
        rw [hy, show fieldPrime - root = fieldPrime by omega, Nat.mod_self]
      refine ⟨hx, ⟨hx ▸ small, second, known⟩, ?_⟩
      cases odd <;> simp at parity ⊢ <;> omega
  next => cases h

theorem exists_ofCompressed? {odd : Bool} {x y : Nat} (point : OnCurve x y)
    (parity : y % 2 = 1 ↔ odd = true) : ∃ k, ofCompressed? odd x = some k := by
  have odd_prime : fieldPrime % 2 = 1 := by decide
  have square : (x * x * x + 7) % fieldPrime = y ^ 2 % fieldPrime := by
    rw [point.equation, pow_succ, pow_two]
  have root := sqrt_eq point.second
  rw [← square] at root
  have nonzero := point.second_ne_zero
  have first := point.first
  have second := point.second
  have known : onCurve x y = true := onCurve_eq_true.mpr point.equation
  have bound : fieldPrime < coordinateBound := by decide
  refine ⟨⟨⟨x, by omega⟩, ⟨y, by omega⟩⟩, ?_⟩
  unfold ofCompressed?
  dsimp only
  rw [if_pos first, accepted?_eq_some]
  revert root
  generalize power fieldPrime ((x * x * x + 7) % fieldPrime) 256 ((fieldPrime + 1) / 4) = root
  intro either
  have chosen : (if (root % 2 == 1) == odd then root else fieldPrime - root) = y := by
    rcases either with rfl | opposite
    · rw [if_pos]
      cases odd <;> simp at parity ⊢ <;> omega
    · rw [if_neg]
      · omega
      · cases odd <;> simp at parity ⊢ <;> omega
  rw [chosen]
  exact ⟨rfl, rfl, known⟩

theorem reduced_exact : reducedPoints.Exact where
  has_iff _ _ := decide_eq_true_iff
  sound _ _ _ := ofCompressed?_eq_some
  complete _ _ _ := exists_ofCompressed?

/-! ## All forms together -/

/-- With exact knowledge of the points, each of them is read back from every form that it is written in,
also where the form is not said; what is read at all is a point, never the key that no caller holds; and
of two things that are read the keys are the same just when one point is written in both. -/
theorem key_encodings_agree {points : Points} (exact : points.Exact) :
    (∀ k : Key, OnCurve k.x.val k.y.val →
      readDatum points (.record k.toRecord) = .ok k ∧ readHex points k.toHex = .ok k ∧
        readHex points k.toCompressedHex = .ok k ∧ readLiteral points k.toLiteral = .ok k ∧
        ∀ d ∈ [.record k.toRecord, .text k.toHex, .text k.toCompressedHex, .text k.toLiteral],
          readAny points d = .ok (some k)) ∧
      (∀ (e : Encoding) (k : Key), ¬ e.IsKey → e.read points = .ok (some k) →
        OnCurve k.x.val k.y.val ∧ k ≠ null) ∧
      ∀ (e e' : Encoding) (k k' : Key), ¬ e.IsKey → ¬ e'.IsKey → e.read points = .ok (some k) →
        e'.read points = .ok (some k') → (k = k' ↔ ∃ x y, e.Denotes x y ∧ e'.Denotes x y) := by
  refine ⟨fun k point => ?_, fun e k written h => ?_, fun e e' k k' written written' h h' => ?_⟩
  · have known : points.has k.x.val k.y.val = true := (exact.has_iff _ _).mpr point
    have record := readDatum_toRecord known
    have digits := readHex_toHex known
    have compressed := readHex_toCompressedHex exact point
    have literal : readLiteral points k.toLiteral = .ok k := readLiteral_eq_ok.mpr ⟨_, rfl, digits⟩
    refine ⟨record, digits, compressed, literal, ?_⟩
    intro d hd
    simp only [List.mem_cons, List.not_mem_nil, or_false] at hd
    rcases hd with rfl | rfl | rfl | rfl
    · exact congrArg (Except.map some) record
    · rw [toHex, readAny_hex, ← toHex, digits]
      rfl
    · rw [toCompressedHex, readAny_hex, ← toCompressedHex, compressed]
      rfl
    · rw [toLiteral, readAny_literal, ← toLiteral, literal]
      rfl
  · have point := (Encoding.denotes_of_read exact written h).1
    refine ⟨point, ?_⟩
    rintro rfl
    exact point.second_ne_zero rfl
  · obtain ⟨-, denotes⟩ := Encoding.denotes_of_read exact written h
    obtain ⟨-, denotes'⟩ := Encoding.denotes_of_read exact written' h'
    constructor
    · rintro rfl
      exact ⟨_, _, denotes, denotes'⟩
    · rintro ⟨x, y, one, one'⟩
      obtain ⟨rfl, rfl⟩ := denotes.unique one
      obtain ⟨hx, hy⟩ := denotes'.unique one'
      cases k
      cases k'
      congr
      · exact Fin.ext hx.symm
      · exact Fin.ext hy.symm

def generator : Key :=
  (accepted? onCurve 0x79be667ef9dcbbac55a06295ce870b07029bfcdb2dce28d959f2815b16f81798
    0x483ada7726a3c4655da4fbfc0e1108a8fd17b448a68554199c47d08ffb10d4b8).getD null

/-- It is written with 33 bytes, and as a literal where no form is said. -/
theorem generator_is_read :
    reducedPoints.Exact ∧ OnCurve generator.x.val generator.y.val ∧
      readHex reducedPoints "0279be667ef9dcbbac55a06295ce870b07029bfcdb2dce28d959f2815b16f81798" =
        .ok generator ∧
      readAny reducedPoints (.text generator.toLiteral) = .ok (some generator) ∧ generator ≠ null ∧
      ∃ x y, Encoding.Denotes
          (.digits "0279be667ef9dcbbac55a06295ce870b07029bfcdb2dce28d959f2815b16f81798") x y ∧
        Encoding.Denotes (.any (.text generator.toLiteral)) x y := by
  obtain ⟨back, points, same⟩ := key_encodings_agree reduced_exact
  have point : OnCurve generator.x.val generator.y.val := by decide +kernel
  obtain ⟨-, -, compressed, -, any⟩ := back generator point
  have digits : generator.toCompressedHex =
      "0279be667ef9dcbbac55a06295ce870b07029bfcdb2dce28d959f2815b16f81798" := by rfl
  rw [digits] at compressed
  have read : Encoding.read reducedPoints
      (.digits "0279be667ef9dcbbac55a06295ce870b07029bfcdb2dce28d959f2815b16f81798") =
        .ok (some generator) := by
    rw [Encoding.read, compressed]
    rfl
  have literal := any (.text generator.toLiteral) (by simp)
  exact ⟨reduced_exact, point, compressed, literal, (points _ _ id read).2,
    (same _ (.any (.text generator.toLiteral)) _ _ id id read literal).mp rfl⟩

end Key

end Covenant
