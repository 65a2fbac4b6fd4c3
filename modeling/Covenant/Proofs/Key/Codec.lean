import Covenant.Key.Codec
import Covenant.Proofs.Text.Base64
import Mathlib.Tactic.Ring
/-!
Keys that are written are read back:

* `readHex_hex`: hexadecimal digits give the bytes that they write;
* `ofBytes_bigEndian`: bytes give the natural that they write;
* `readHex_toHex`, `readDatum_toRecord`: a point is read from its digits and from its record;
* `readPair_eq_ok`, `readBytes_eq_ok`, `readHex_eq_ok`, `readLiteral_eq_ok`: what is read at all;
* `isPoint_of_ofLiteral`: what a literal names is a point;
* `unquotable_of_readAny`: only a record that names a kind of key no message can quote has no refusal.
-/

namespace Covenant

namespace Text

/-- A digit as it is written: nothing that is skipped where digits are read. -/
structure IsHexDigit (c : Char) : Prop where
  ascii : c.toNat < 0x80
  notGap : isByteGap c = false
  notBlank : isBlank c = false
  notSign : c ≠ 'x' ∧ c ≠ 'X'
  notMark : c ≠ '#'

theorem isHexDigit_hexDigit {n : Nat} (h : n < 16) : IsHexDigit (hexDigit n) := by
  have all : ∀ n < 16, (hexDigit n).toNat < 0x80 ∧ isByteGap (hexDigit n) = false ∧
      isBlank (hexDigit n) = false ∧ (hexDigit n ≠ 'x' ∧ hexDigit n ≠ 'X') ∧ hexDigit n ≠ '#' := by
    decide
  obtain ⟨ascii, gap, blank, sign, mark⟩ := all n h
  exact ⟨ascii, gap, blank, sign, mark⟩

theorem hexValue_hexDigit {n : Nat} (h : n < 16) : hexValue? (hexDigit n) = some n := by
  have all : ∀ n < 16, hexValue? (hexDigit n) = some n := by decide
  exact all n h

theorem exists_hexDigit {bytes : Bytes} {c : Char} (h : c ∈ bytes.flatMap hexByte) :
    ∃ n < 16, c = hexDigit n := by
  obtain ⟨b, -, hc⟩ := List.mem_flatMap.mp h
  have hb := b.toNat_lt
  rcases List.mem_cons.mp hc with rfl | hc
  · exact ⟨b.toNat / 16, by omega, rfl⟩
  · exact ⟨b.toNat % 16, by omega, List.mem_singleton.mp hc⟩

theorem isHexDigit_of_mem {bytes : Bytes} {c : Char} (h : c ∈ bytes.flatMap hexByte) :
    IsHexDigit c := by
  obtain ⟨n, small, rfl⟩ := exists_hexDigit h
  exact isHexDigit_hexDigit small

theorem readHexFrom_hexByte (position : Nat) (bytes : Bytes) :
    readHexFrom position (bytes.flatMap hexByte) = .ok bytes := by
  induction bytes generalizing position with
  | nil => rfl
  | cons b rest ih =>
    have hb := b.toNat_lt
    have high : b.toNat / 16 < 16 := by omega
    have low : b.toNat % 16 < 16 := by omega
    have value : UInt8.ofNat (16 * (b.toNat / 16) + b.toNat % 16) = b := by
      rw [Nat.div_add_mod, UInt8.ofNat_toNat]
    rw [List.flatMap_cons, hexByte, List.cons_append, List.cons_append, List.nil_append]
    simp only [readHexFrom, (isHexDigit_hexDigit high).notGap, hexValue_hexDigit high,
      hexValue_hexDigit low, ih, value, Bool.false_eq_true, if_false]
    rfl

theorem readHex_hex (bytes : Bytes) : readHex (bytes.flatMap hexByte) = .ok bytes := by
  have none : (bytes.flatMap hexByte).findIdx? (fun c => 0x80 ≤ c.toNat) = none := by
    rw [List.findIdx?_eq_none_iff]
    intro c hc
    have := (isHexDigit_of_mem hc).ascii
    simpa using this
  rw [readHex, none]
  exact readHexFrom_hexByte 0 bytes

theorem dropWhile_eq_self {p : Char → Bool} {s : List Char} (h : ∀ c ∈ s, p c = false) :
    s.dropWhile p = s := by
  cases s with
  | nil => rfl
  | cons c rest => rw [List.dropWhile_cons, h c List.mem_cons_self, if_neg Bool.false_ne_true]

/-- Text without blanks is not cut. -/
theorem trim_eq_self {s : List Char} (h : ∀ c ∈ s, isBlank c = false) : trim s = s := by
  rw [trim, dropWhile_eq_self h, dropWhile_eq_self fun c hc => h c (List.mem_reverse.mp hc),
    List.reverse_reverse]

end Text

namespace Sha256

theorem length_bigEndian (n value : Nat) : (bigEndian n value).length = n := by
  induction n with
  | zero => rfl
  | succ n ih => rw [bigEndian, List.length_cons, ih]

end Sha256

namespace Key

theorem foldl_bigEndian (n value start : Nat) :
    (Sha256.bigEndian n value).foldl (fun n x => n * 256 + x.toNat) start =
      start * 256 ^ n + value % 256 ^ n := by
  induction n generalizing start with
  | zero => simp [Sha256.bigEndian, Nat.mod_one]
  | succ n ih =>
    have first : (UInt8.ofNat (value >>> (8 * n))).toNat = value / 256 ^ n % 256 := by
      rw [Nat.shiftRight_eq_div_pow, Nat.pow_mul, UInt8.toNat_ofNat']
    rw [Sha256.bigEndian, List.foldl_cons, ih, first, Nat.pow_succ 256 n, Nat.mod_mul]
    ring

theorem ofBytes_bigEndian {n value : Nat} (h : value < 256 ^ n) :
    ofBytes (Sha256.bigEndian n value) = value := by
  rw [ofBytes, foldl_bigEndian, Nat.zero_mul, Nat.zero_add, Nat.mod_eq_of_lt h]

theorem length_coordinateBytes (c : Coordinate) : (coordinateBytes c).length = 32 :=
  Sha256.length_bigEndian 32 c.val

theorem ofBytes_coordinateBytes (c : Coordinate) : ofBytes (coordinateBytes c) = c.val :=
  ofBytes_bigEndian (Nat.lt_of_lt_of_eq c.isLt (by decide))

theorem dropHexSign_eq_self {s : List Char} (h : ∀ c ∈ s, c ≠ 'x' ∧ c ≠ 'X') :
    dropHexSign s = s := by
  unfold dropHexSign
  split
  · exact absurd rfl (h 'x' (by simp)).1
  · exact absurd rfl (h 'X' (by simp)).2
  · rfl

/-! ## Reading -/

/-- Coordinates that pass the test are those of a key. -/
theorem accepted?_eq_some {test : Nat → Nat → Bool} {x y : Nat} {k : Key} :
    accepted? test x y = some k ↔ k.x.val = x ∧ k.y.val = y ∧ test x y = true := by
  unfold accepted?
  constructor
  · intro h
    split at h
    · split at h
      next passed =>
        cases h
        exact ⟨rfl, rfl, passed⟩
      next => cases h
    · cases h
  · rintro ⟨rfl, rfl, passed⟩
    rw [dif_pos ⟨k.x.isLt, k.y.isLt⟩, if_pos passed]

section
variable {points : Points} {k : Key}

theorem readPair_eq_ok {x y : Bytes} : readPair points x y = .ok k ↔ x.length = 32 ∧ y.length = 32 ∧
    k.x.val = ofBytes x ∧ k.y.val = ofBytes y ∧ points.has (ofBytes x) (ofBytes y) = true := by
  unfold readPair
  constructor
  · intro h
    split at h
    · cases h
    next sizes =>
      push Not at sizes
      split at h
      next found =>
        cases h
        exact ⟨sizes.1, sizes.2, accepted?_eq_some.mp found⟩
      next => cases h
  · rintro ⟨hx, hy, accepted⟩
    rw [if_neg (by simp [hx, hy]), accepted?_eq_some.mpr accepted]

/-- A key is read from 64 bytes as a pair, from 33 by the parity that the first of them says. -/
theorem readBytes_eq_ok {b : Bytes} : readBytes points b = .ok k ↔
    (b.length = 64 ∧ readPair points (b.take 32) (b.drop 32) = .ok k) ∨
      ∃ first x, b = first :: x ∧ x.length = 32 ∧ (first = 2 ∨ first = 3) ∧
        points.withParity? (first = 3) (ofBytes x) = some k := by
  unfold readBytes
  constructor
  · intro h
    split at h
    next whole => exact .inl ⟨whole, h⟩
    next =>
      split at h
      next size =>
        obtain ⟨first, x, rfl⟩ := List.exists_cons_of_length_eq_add_one size
        dsimp only [List.headD_cons, List.tail_cons] at h
        split at h
        next form =>
          split at h
          next found =>
            cases h
            exact .inr ⟨first, x, rfl, Nat.succ.inj size, form, found⟩
          next => cases h
        next => cases h
      next => cases h
  · rintro (⟨whole, pair⟩ | ⟨first, x, rfl, size, form, found⟩)
    · rw [if_pos whole, pair]
    · rw [if_neg (by simp [size]), if_pos (by simp [size])]
      dsimp only [List.headD_cons, List.tail_cons]
      rw [if_pos form, found]

theorem readHex_eq_ok {s : String} : readHex points s = .ok k ↔
    ∃ b, Text.readHex (dropHexSign (Text.trim s.toList)) = .ok b ∧ readBytes points b = .ok k := by
  unfold readHex
  split <;> simp_all

/-- A literal is the scheme, a mark and the digits. -/
theorem readLiteral_eq_ok {s : String} : readLiteral points s = .ok k ↔
    ∃ t : String, s = "eth#" ++ t ∧ readHex points t = .ok k := by
  unfold readLiteral
  constructor
  · intro h
    dsimp only at h
    split at h
    · cases h
    next marked =>
      split at h
      · cases h
      next scheme =>
        push Not at scheme
        refine ⟨_, String.toList_injective ?_, h⟩
        have parts := List.takeWhile_append_dropWhile (p := (· != '#')) (l := s.toList)
        rw [scheme] at marked parts ⊢
        cases after : s.toList.dropWhile (· != '#') with
        | nil =>
          rw [after, List.append_nil] at parts
          exact absurd (congrArg List.length parts) marked
        | cons c rest =>
          have mark : c = '#' := by
            have head := List.head_dropWhile_not (· != '#') (l := s.toList) (by simp [after])
            simpa [after] using head
          rw [after, mark] at parts
          rw [← parts, String.toList_append, String.toList_ofList]
          simp
  · rintro ⟨t, rfl, h⟩
    have scheme : ("eth#" ++ t).toList.takeWhile (· != '#') = "eth".toList := by
      rw [String.toList_append]
      rfl
    simp only [scheme]
    rw [if_neg (by simp), if_neg (by simp), String.toList_append]
    simpa using h

theorem readRecord_eq_ok {fields : Fields} (h : readRecord points fields = .ok k) :
    ∃ x y bx b, fields.lookup "x" = some (.text x) ∧ fields.lookup "y" = some (.text y) ∧
      Text.Base64.readLenient x.toList = .ok bx ∧ Text.Base64.readLenient y.toList = .ok b ∧
      readPair points bx b = .ok k := by
  have text : ∀ {name : String} {d : Datum} {b : Bytes}, readCoordinate name d = .ok b →
      ∃ s, d = .text s ∧ Text.Base64.readLenient s.toList = .ok b := by
    intro name d b hd
    unfold readCoordinate at hd
    split at hd
    next s =>
      split at hd
      next read =>
        cases hd
        exact ⟨s, rfl, read⟩
      next => cases hd
    next => cases hd
  unfold readRecord at h
  dsimp only at h
  split at h
  · cases h
  · split at h
    next hx hy =>
      obtain ⟨bx, readX, later⟩ := bind_eq_ok.mp h
      obtain ⟨b, readY, pair⟩ := bind_eq_ok.mp later
      obtain ⟨x, rfl, bytesX⟩ := text readX
      obtain ⟨y, rfl, bytesY⟩ := text readY
      exact ⟨x, y, bx, b, hx, hy, bytesX, bytesY, pair⟩
    next => cases h

/-! ## Points are read back -/

theorem readPair_coordinateBytes (known : points.has k.x.val k.y.val = true) :
    readPair points (coordinateBytes k.x) (coordinateBytes k.y) = .ok k := by
  rw [readPair_eq_ok, ofBytes_coordinateBytes, ofBytes_coordinateBytes]
  exact ⟨length_coordinateBytes k.x, length_coordinateBytes k.y, rfl, rfl, known⟩

/-- Bytes are read as they are from their digits. -/
theorem readHex_hex (bytes : Bytes) : readHex points (Text.hex bytes) = readBytes points bytes := by
  rw [readHex, Text.hex, String.toList_ofList,
    Text.trim_eq_self fun c hc => (Text.isHexDigit_of_mem hc).notBlank,
    dropHexSign_eq_self fun c hc => (Text.isHexDigit_of_mem hc).notSign, Text.readHex_hex]

/-- A point is read back from its digits. -/
theorem readHex_toHex (known : points.has k.x.val k.y.val = true) :
    readHex points k.toHex = .ok k := by
  have size : (coordinateBytes k.x ++ coordinateBytes k.y).length = 64 := by
    rw [List.length_append, length_coordinateBytes, length_coordinateBytes]
  rw [toHex, readHex_hex, readBytes_eq_ok]
  refine .inl ⟨size, ?_⟩
  rw [List.take_left' (length_coordinateBytes k.x), List.drop_left' (length_coordinateBytes k.x),
    readPair_coordinateBytes known]

/-- A point is read back from its record. -/
theorem readDatum_toRecord (known : points.has k.x.val k.y.val = true) :
    readDatum points (.record k.toRecord) = .ok k := by
  have read : readDatum points (.record k.toRecord) = (do
      let x ← readCoordinate "x" (.text (Text.Base64.write Text.Base64.urlSafe (coordinateBytes k.x)))
      let y ← readCoordinate "y" (.text (Text.Base64.write Text.Base64.urlSafe (coordinateBytes k.y)))
      readPair points x y) := rfl
  rw [read, readCoordinate, Text.Base64.readLenient_write, ok_bind, readCoordinate,
    Text.Base64.readLenient_write, ok_bind, readPair_coordinateBytes known]

end

/-- A point of the curve is read back from its digits. -/
theorem ofHex_toHex {k : Key} (point : k.IsPoint) : ofHex k.toHex = .ok k := readHex_toHex point

theorem toHex_ne_empty (k : Key) : k.toHex ≠ "" := by
  intro h
  have size := congrArg String.length h
  have bytes : (coordinateBytes k.x ++ coordinateBytes k.y).length = 64 := by
    rw [List.length_append, length_coordinateBytes, length_coordinateBytes]
  cases hb : coordinateBytes k.x ++ coordinateBytes k.y with
  | nil =>
    rw [hb] at bytes
    cases bytes
  | cons b rest => simp [toHex, hb, Text.hex, Text.hexByte] at size

/-- Keys that are written with the same digits are the same, points or not. -/
theorem toHex_injective {k k' : Key} (h : k.toHex = k'.toHex) : k = k' := by
  have digits := congrArg (fun s => Text.readHex s.toList) h
  simp only [toHex, Text.hex, String.toList_ofList, Text.readHex_hex, Except.ok.injEq] at digits
  have lengths : (coordinateBytes k.x).length = (coordinateBytes k'.x).length := by
    rw [length_coordinateBytes, length_coordinateBytes]
  obtain ⟨xs, ys⟩ := List.append_inj digits lengths
  have coordinate : ∀ {c c' : Coordinate}, coordinateBytes c = coordinateBytes c' → c = c' :=
    fun same => Fin.ext (by rw [← ofBytes_coordinateBytes, same, ofBytes_coordinateBytes])
  obtain ⟨x, y⟩ := k
  obtain ⟨x', y'⟩ := k'
  obtain rfl : x = x' := coordinate xs
  obtain rfl : y = y' := coordinate ys
  rfl

/-! ## Points -/

/-- A key that those who know the points give. -/
def GivenBy (points : Points) (k : Key) : Prop :=
  points.has k.x.val k.y.val = true ∨ ∃ odd x, points.withParity? odd x = some k

section
variable {points : Points} {k : Key}

theorem givenBy_of_readPair {x y : Bytes} (h : readPair points x y = .ok k) : k.GivenBy points := by
  obtain ⟨-, -, hx, hy, known⟩ := readPair_eq_ok.mp h
  exact .inl (by rw [hx, hy, known])

theorem givenBy_of_readHex {s : String} (h : readHex points s = .ok k) : k.GivenBy points := by
  obtain ⟨b, -, h⟩ := readHex_eq_ok.mp h
  rcases readBytes_eq_ok.mp h with ⟨-, pair⟩ | ⟨first, x, -, -, -, found⟩
  · exact givenBy_of_readPair pair
  · exact .inr ⟨_, _, found⟩

theorem givenBy_of_readLiteral {s : String} (h : readLiteral points s = .ok k) : k.GivenBy points := by
  obtain ⟨t, -, h⟩ := readLiteral_eq_ok.mp h
  exact givenBy_of_readHex h

theorem givenBy_of_readDatum {d : Datum} (h : readDatum points d = .ok k) : k.GivenBy points := by
  cases d with
  | record fields =>
    obtain ⟨x, y, bx, b, -, -, -, -, pair⟩ := readRecord_eq_ok h
    exact givenBy_of_readPair pair
  | _ => cases h

end

theorem isPoint_of_givenBy {k : Key} (h : k.GivenBy .modular) : k.IsPoint := by
  rcases h with known | ⟨odd, x, found⟩
  · exact known
  · change ofCompressed? odd x = some k at found
    unfold ofCompressed? at found
    dsimp only at found
    split at found
    · obtain ⟨hx, hy, known⟩ := accepted?_eq_some.mp found
      rw [IsPoint, hx, hy, known]
    · cases found

/-- The key that a literal names is a point of the curve. -/
theorem isPoint_of_ofLiteral {s : String} {k : Key} (h : ofLiteral s = .ok k) : k.IsPoint :=
  isPoint_of_givenBy (givenBy_of_readLiteral h)

theorem isPoint_of_ofDatum {d : Datum} {k : Key} (h : ofDatum d = .ok k) : k.IsPoint :=
  isPoint_of_givenBy (givenBy_of_readDatum h)

/-- No point of the curve is the key that no caller holds. -/
theorem isNull_of_isPoint {k : Key} (h : k.IsPoint) : k.isNull = false := by
  rcases k with ⟨x, y⟩
  by_contra null
  simp only [isNull, Bool.not_eq_false, Bool.and_eq_true, beq_iff_eq] at null
  unfold IsPoint at h
  rw [show x.val = 0 from null.1, show y.val = 0 from null.2] at h
  exact absurd h (by decide)

/-! ## Kinds that no message can quote -/

/-- A record that names the kind of key by something no message can quote. -/
inductive Unquotable : Datum → Prop
  | record {fields : Fields} {name : String} {held : Datum} (kind : name ∈ ["kty", "crv", "alg", "use"])
      (given : fields.lookup name = some held) (long : held.isQuotable Datum.nestingLimit = false) :
      Unquotable (.record fields)

section
variable {points : Points}

theorem readCoordinate_ne_unquotable (name : String) (d : Datum) :
    readCoordinate name d ≠ .error .unquotable := by
  unfold readCoordinate
  split
  · split <;> nofun
  · nofun

theorem readPair_ne_unquotable (x y : Bytes) : readPair points x y ≠ .error .unquotable := by
  unfold readPair
  split
  · nofun
  · split <;> nofun

theorem readHex_ne_unquotable (s : String) : readHex points s ≠ .error .unquotable := by
  unfold readHex
  split
  next b _ =>
    unfold readBytes
    split
    · exact readPair_ne_unquotable _ _
    · split
      · dsimp only
        split
        · split <;> nofun
        · nofun
      · nofun
  · nofun

theorem readLiteral_ne_unquotable (s : String) : readLiteral points s ≠ .error .unquotable := by
  unfold readLiteral
  dsimp only
  split
  · nofun
  · split
    · nofun
    · exact readHex_ne_unquotable _

theorem unquotable_of_readRecord {fields : Fields} (h : readRecord points fields = .error .unquotable) :
    Unquotable (.record fields) := by
  -- what stands for a member that is left out can be quoted
  have named : ∀ {name : String} {other : Datum}, name ∈ ["kty", "crv", "alg", "use"] →
      other.isQuotable Datum.nestingLimit = true →
      ((fields.lookup name).getD other).isQuotable Datum.nestingLimit = false →
      Unquotable (.record fields) := by
    intro name other kind quoted long
    cases given : fields.lookup name with
    | none =>
      rw [given, Option.getD_none, quoted] at long
      cases long
    | some held =>
      rw [given, Option.getD_some] at long
      exact .record kind given long
  unfold readRecord at h
  dsimp only at h
  split at h
  · have fault := Except.error.inj h
    unfold KeyFault.ofKind at fault
    split at fault
    · cases fault
    next unquoted =>
      simp only [List.all_cons, List.all_nil, Bool.and_true, Bool.and_eq_true, not_and_or,
        Bool.not_eq_true] at unquoted
      rcases unquoted with kty | crv | alg | use
      · exact named (by simp) rfl kty
      · exact named (by simp) rfl crv
      · exact named (by simp) rfl alg
      · exact named (by simp) rfl use
  · split at h
    · rcases bind_eq_error.mp h with first | ⟨x, -, h⟩
      · exact absurd first (readCoordinate_ne_unquotable _ _)
      rcases bind_eq_error.mp h with second | ⟨y, -, h⟩
      · exact absurd second (readCoordinate_ne_unquotable _ _)
      · exact absurd h (readPair_ne_unquotable _ _)
    · cases h

theorem unquotable_of_readDatum {d : Datum} (h : readDatum points d = .error .unquotable) :
    Unquotable d := by
  cases d with
  | record fields => exact unquotable_of_readRecord h
  | _ => cases h

/-- Only a record that names its kind by something no message can quote is neither a key nor refused. -/
theorem unquotable_of_readAny {d : Datum} (h : readAny points d = .error .unquotable) : Unquotable d := by
  have mapped : ∀ {r : Except KeyFault Key}, r.map some = .error .unquotable → r = .error .unquotable := by
    intro r h
    cases r <;> cases h
    rfl
  cases d with
  | record fields => exact unquotable_of_readRecord (mapped h)
  | text s =>
    unfold readAny at h
    have read := mapped h
    split at read
    · exact absurd read (readLiteral_ne_unquotable s)
    · exact absurd read (readHex_ne_unquotable s)
  | _ => cases h

end

/-- A key that data can give: a point of the curve, or the one that no caller holds. -/
def IsValid (k : Key) : Prop := k = null ∨ k.IsPoint

end Key

end Covenant
