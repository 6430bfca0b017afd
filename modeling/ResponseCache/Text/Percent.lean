import ResponseCache.Text.Hex

/-! # Percent-encoding -/
namespace ResponseCache.Percent

/-- Writes `%XX` for the bytes that `escaped` names and for every byte outside ASCII. -/
def encodeByte (escaped : UInt8 → Bool) (b : UInt8) : List Char :=
  if escaped b || 0x80 ≤ b.toNat then
    ['%', Hex.upperDigit (b.toNat / 16), Hex.upperDigit (b.toNat % 16)]
  else [Char.ofNat b.toNat]

def encode (escaped : UInt8 → Bool) (cs : List Char) : List Char :=
  (Utf8.encode cs).flatMap (encodeByte escaped)

/-- The byte of a `%` and two hexadecimal digits. -/
def escapedByte (b h l : UInt8) : Option UInt8 :=
  if b = 0x25 then match Hex.digitValue h.toNat, Hex.digitValue l.toNat with
    | some h, some l => some (UInt8.ofNat (h * 16 + l))
    | _, _ => none
  else none

/-- A `%` without two digits after it stands for itself. -/
def decodeBytes : Bytes → Bytes
  | b :: h :: l :: bs => match escapedByte b h l with
    | some d => d :: decodeBytes bs
    | none => b :: decodeBytes (h :: l :: bs)
  | bs => bs

/-- Bytes that no longer spell text are replaced as in lossy UTF-8. -/
def decode (cs : List Char) : List Char := Utf8.decodeLossy (decodeBytes (Utf8.encode cs))

@[simp] theorem encode_nil (escaped : UInt8 → Bool) : encode escaped [] = [] := rfl

end ResponseCache.Percent
