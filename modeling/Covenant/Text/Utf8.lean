/-!
The byte form of text, one to four bytes a character. Reading replaces what is no such form.
-/

namespace Covenant

abbrev Bytes := List UInt8

namespace Text

/-- Total: a text holds no half of a surrogate pair, which has no byte form. -/
def utf8 (s : String) : Bytes := s.toList.flatMap String.utf8EncodeChar

/-- The character put in place of bytes that stand for none. -/
def replacement : Char := Char.ofNat 0xfffd

/-- A character begun: its bits so far, the bytes still to come, and the bounds of the next. -/
structure Begun where
  bits : Nat
  missing : Nat
  lowest : Nat
  highest : Nat

/-- What a first byte says: a whole character, the beginning of one, or nothing. The bounds of the
second byte leave out longer forms of a character, surrogates and what lies beyond the last code
point. -/
def firstByte (b : Nat) : Char ⊕ Begun :=
  if b < 0x80 then .inl (Char.ofNat b)
  else if b < 0xc2 then .inl replacement
  else if b < 0xe0 then .inr ⟨b - 0xc0, 1, 0x80, 0xbf⟩
  else if b = 0xe0 then .inr ⟨0, 2, 0xa0, 0xbf⟩
  else if b = 0xed then .inr ⟨0xd, 2, 0x80, 0x9f⟩
  else if b < 0xf0 then .inr ⟨b - 0xe0, 2, 0x80, 0xbf⟩
  else if b = 0xf0 then .inr ⟨0, 3, 0x90, 0xbf⟩
  else if b < 0xf4 then .inr ⟨b - 0xf0, 3, 0x80, 0xbf⟩
  else if b = 0xf4 then .inr ⟨4, 3, 0x80, 0x8f⟩
  else .inl replacement

/-- The characters of bytes, each longest beginning of a character that is not completed becoming
one replacement. -/
def readFrom : Option Begun → Bytes → List Char
  | none, [] => []
  | some _, [] => [replacement]
  | none, b :: rest =>
    match firstByte b.toNat with
    | .inl c => c :: readFrom none rest
    | .inr begun => readFrom (some begun) rest
  | some begun, b :: rest =>
    if begun.lowest ≤ b.toNat ∧ b.toNat ≤ begun.highest then
      let bits := begun.bits * 64 + b.toNat % 64
      if begun.missing ≤ 1 then Char.ofNat bits :: readFrom none rest
      else readFrom (some ⟨bits, begun.missing - 1, 0x80, 0xbf⟩) rest
    else
      replacement :: match firstByte b.toNat with
        | .inl c => c :: readFrom none rest
        | .inr begun => readFrom (some begun) rest

def ofUtf8 (bytes : Bytes) : String := String.ofList (readFrom none bytes)

end Text

end Covenant
