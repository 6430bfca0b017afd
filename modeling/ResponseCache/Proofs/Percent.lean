import ResponseCache.Text.Percent

/-!
# Percent-encoding undone

What is encoded is read back, whatever bytes follow it, as long as the percent sign is escaped. An
escaped character other than the percent sign and the digits of escapes does not occur in the
result.
-/
namespace ResponseCache

theorem Text.toNat_ofNat_of_ascii {n : Nat} (h : n < 0x80) : (Char.ofNat n).toNat = n := by
  have hv : n.isValidChar := .inl (by omega)
  rw [Char.ofNat, dif_pos hv]
  rfl

theorem Hex.upperDigit_toNat_lt {n : Nat} (h : n < 16) : (upperDigit n).toNat < 0x80 := by
  have : ∀ n : Fin 16, (upperDigit n.1).toNat < 0x80 := by decide
  exact this ⟨n, h⟩

namespace Utf8

theorem encodeChar_of_ascii {c : Char} (h : c.toNat < 0x80) :
    String.utf8EncodeChar c = [UInt8.ofNat c.toNat] := by
  have hv : c.val.toNat ≤ 0x7f := by
    show c.toNat ≤ 0x7f
    omega
  rw [String.utf8EncodeChar, if_pos hv]
  rfl

theorem encode_of_ascii {cs : List Char} (h : ∀ c ∈ cs, c.toNat < 0x80) :
    encode cs = cs.map fun c => UInt8.ofNat c.toNat := by
  induction cs with
  | nil => rfl
  | cons c cs ih =>
    rw [encode_cons, encodeChar_of_ascii (h c List.mem_cons_self),
      ih fun d hd => h d (List.mem_cons_of_mem _ hd)]
    rfl

end Utf8

namespace Percent

/-- Only escapes change what stands after them. -/
theorem decodeBytes_cons_of_ne {b : UInt8} (h : b ≠ 0x25) (bs : Bytes) :
    decodeBytes (b :: bs) = b :: decodeBytes bs := by
  match bs with
  | [] => rfl
  | [_] => rfl
  | d :: l :: bs => rw [decodeBytes, escapedByte, if_neg h]

theorem decodeBytes_digits {b high low : UInt8}
    (hhigh : Hex.digitValue high.toNat = some (b.toNat / 16))
    (hlow : Hex.digitValue low.toNat = some (b.toNat % 16)) (bs : Bytes) :
    decodeBytes (0x25 :: high :: low :: bs) = b :: decodeBytes bs := by
  have hescape : escapedByte 0x25 high low = some b := by
    rw [escapedByte, if_pos rfl, hhigh, hlow]
    simp only [Option.some.injEq]
    rw [show b.toNat / 16 * 16 + b.toNat % 16 = b.toNat by omega, UInt8.ofNat_toNat]
  rw [decodeBytes, hescape]

theorem decodeBytes_escape (b : UInt8) (bs : Bytes) :
    decodeBytes (0x25 :: UInt8.ofNat (Hex.upperDigit (b.toNat / 16)).toNat ::
      UInt8.ofNat (Hex.upperDigit (b.toNat % 16)).toNat :: bs) = b :: decodeBytes bs := by
  have hb := b.toNat_lt
  have digit : ∀ n, n < 16 → Hex.digitValue (UInt8.ofNat (Hex.upperDigit n).toNat).toNat =
      some n := by
    intro n hn
    have hascii := Hex.upperDigit_toNat_lt hn
    rw [UInt8.toNat_ofNat', Nat.mod_eq_of_lt (by omega), Hex.digitValue_upperDigit hn]
  exact decodeBytes_digits (digit _ (by omega)) (digit _ (by omega)) bs

theorem encodeByte_ascii (escaped : UInt8 → Bool) (b : UInt8) :
    ∀ c ∈ encodeByte escaped b, c.toNat < 0x80 := by
  have hb := b.toNat_lt
  rw [encodeByte]
  split
  · intro c hc
    simp only [List.mem_cons, List.not_mem_nil, or_false] at hc
    rcases hc with rfl | rfl | rfl
    · decide
    · exact Hex.upperDigit_toNat_lt (by omega)
    · exact Hex.upperDigit_toNat_lt (by omega)
  · rename_i h
    simp only [Bool.or_eq_true, decide_eq_true_eq, not_or, Nat.not_le] at h
    intro c hc
    obtain rfl := List.mem_singleton.mp hc
    rw [Text.toNat_ofNat_of_ascii h.2]
    exact h.2

variable {escaped : UInt8 → Bool}

theorem decodeBytes_encodeByte (hp : escaped 0x25 = true) (b : UInt8) (bs : Bytes) :
    decodeBytes (Utf8.encode (encodeByte escaped b) ++ bs) = b :: decodeBytes bs := by
  rw [Utf8.encode_of_ascii (encodeByte_ascii escaped b)]
  rw [encodeByte]
  split
  · exact decodeBytes_escape b bs
  · rename_i h
    simp only [Bool.or_eq_true, decide_eq_true_eq, not_or, Nat.not_le] at h
    have hne : b ≠ 0x25 := by
      rintro rfl
      exact h.1 hp
    simp only [List.map_cons, List.map_nil, Text.toNat_ofNat_of_ascii h.2, UInt8.ofNat_toNat]
    exact decodeBytes_cons_of_ne hne bs

theorem decodeBytes_encode (hp : escaped 0x25 = true) (bs rest : Bytes) :
    decodeBytes (Utf8.encode (bs.flatMap (encodeByte escaped)) ++ rest) =
      bs ++ decodeBytes rest := by
  induction bs with
  | nil => rfl
  | cons b bs ih =>
    rw [List.flatMap_cons, Utf8.encode_append, List.append_assoc, decodeBytes_encodeByte hp, ih,
      List.cons_append]

theorem decode_encode (hp : escaped 0x25 = true) (cs : List Char) :
    decode (encode escaped cs) = cs := by
  have h := decodeBytes_encode hp (Utf8.encode cs) []
  simp only [List.append_nil, decodeBytes] at h
  rw [decode, encode, h, Utf8.decodeLossy_encode]

theorem encode_inj (hp : escaped 0x25 = true) {cs cs' : List Char}
    (h : encode escaped cs = encode escaped cs') : cs = cs' := by
  have hd := decode_encode hp cs
  rw [h, decode_encode hp] at hd
  exact hd.symm

/-- An escaped character is not written, unless escapes are made of it. -/
theorem not_mem_encode {c : Char} (hc : c.toNat < 0x80) (he : escaped (UInt8.ofNat c.toNat) = true)
    (hp : c ≠ '%') (hd : ∀ n < 16, c ≠ Hex.upperDigit n) (cs : List Char) :
    c ∉ encode escaped cs := by
  intro h
  obtain ⟨b, -, hb⟩ := List.mem_flatMap.mp h
  have hlt := b.toNat_lt
  rw [encodeByte] at hb
  split at hb
  · simp only [List.mem_cons, List.not_mem_nil, or_false] at hb
    rcases hb with h | h | h
    · exact hp h
    · exact hd _ (by omega) h
    · exact hd _ (by omega) h
  · rename_i hn
    simp only [Bool.or_eq_true, decide_eq_true_eq, not_or, Nat.not_le] at hn
    obtain rfl := List.mem_singleton.mp hb
    rw [Text.toNat_ofNat_of_ascii hn.2, UInt8.ofNat_toNat] at he
    exact hn.1 he

end Percent
end ResponseCache
