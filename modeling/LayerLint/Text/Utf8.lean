/-! # Reading bytes as text

Strict reading refuses bytes that are not UTF-8. Forgiving reading puts the replacement character
U+FFFD in place of every ill-formed sequence: a sequence is cut before the first byte that cannot
continue it, and that byte is looked at again.
-/

namespace LayerLint.Text

/-- What the first byte of a UTF-8 sequence says about the rest of it. -/
structure Utf8Lead where
  /-- The bits of the code point that the first byte carries. -/
  bits : Nat
  /-- The least and the greatest second byte, which rule out overlong forms, surrogates and code
  points beyond U+10FFFF. -/
  second : Nat × Nat
  /-- How many bytes follow the second one. -/
  more : Nat

/-- The reading of a first byte that is not ASCII; `none` for bytes that begin no sequence. -/
def Utf8Lead.ofByte? (b : Nat) : Option Utf8Lead :=
  if 0xC2 ≤ b ∧ b ≤ 0xDF then some ⟨b - 0xC0, (0x80, 0xBF), 0⟩
  else if b = 0xE0 then some ⟨0, (0xA0, 0xBF), 1⟩
  else if b = 0xED then some ⟨0xD, (0x80, 0x9F), 1⟩
  else if 0xE1 ≤ b ∧ b ≤ 0xEF then some ⟨b - 0xE0, (0x80, 0xBF), 1⟩
  else if b = 0xF0 then some ⟨0, (0x90, 0xBF), 2⟩
  else if 0xF1 ≤ b ∧ b ≤ 0xF3 then some ⟨b - 0xF0, (0x80, 0xBF), 2⟩
  else if b = 0xF4 then some ⟨4, (0x80, 0x8F), 2⟩
  else none

/-- A sequence that is being read: the bits so far, the range of the next byte, and how many bytes
follow that one. -/
structure Utf8Open where
  bits : Nat
  next : Nat × Nat
  more : Nat

/-- The mark that stands for an ill-formed sequence. -/
def replacement : Char := Char.ofNat 0xFFFD

/-- What a byte means where a new character begins: a character, an opened sequence, or neither. -/
def utf8Begin (b : Nat) : List Char × Option Utf8Open :=
  if b < 0x80 then ([Char.ofNat b], none)
  else match Utf8Lead.ofByte? b with
    | some lead => ([], some ⟨lead.bits, lead.second, lead.more⟩)
    | none => ([replacement], none)

/-- Reads bytes with an open sequence, if there is one. -/
def decodeFrom : Option Utf8Open → List UInt8 → List Char
  | none, [] => []
  | some _, [] => [replacement]
  | none, b :: rest =>
      let (shown, pending) := utf8Begin b.toNat
      shown ++ decodeFrom pending rest
  | some pending, b :: rest =>
      if pending.next.1 ≤ b.toNat ∧ b.toNat ≤ pending.next.2 then
        let bits := pending.bits * 64 + (b.toNat - 0x80)
        match pending.more with
        | 0 => Char.ofNat bits :: decodeFrom none rest
        | more + 1 => decodeFrom (some ⟨bits, (0x80, 0xBF), more⟩) rest
      else
        let (shown, pending) := utf8Begin b.toNat
        replacement :: shown ++ decodeFrom pending rest

/-- The text of the bytes, with every ill-formed sequence replaced. -/
def decodeForgiving (bytes : ByteArray) : String :=
  match String.fromUTF8? bytes with
  | some text => text
  | none => String.ofList (decodeFrom none bytes.toList)

/-- The text of the bytes, if they are UTF-8. -/
def decode? (bytes : ByteArray) : Option String :=
  String.fromUTF8? bytes

end LayerLint.Text
