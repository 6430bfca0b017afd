/-!
# UTF-8

One automaton reads bytes into characters and marks each maximal ill-formed part. Strict reading
accepts when there are no marks, lossy reading replaces each mark by U+FFFD.
-/
namespace ResponseCache

abbrev Bytes := List UInt8

namespace Utf8

def encode (cs : List Char) : Bytes := cs.flatMap String.utf8EncodeChar

/-- The inside of a character: its bits so far, the bounds of the next byte, and how many follow
that. -/
structure Partial where
  bits : Nat
  low : Nat
  high : Nat
  more : Nat

inductive Lead | done (c : Char) | partly (p : Partial) | illFormed

/-- The second byte's bounds exclude overlong forms, surrogates and values past U+10FFFF. -/
def lead (b : UInt8) : Lead :=
  let n := b.toNat
  if n < 0x80 then .done (Char.ofNat n)
  else if n < 0xc2 then .illFormed
  else if n < 0xe0 then .partly ⟨n - 0xc0, 0x80, 0xbf, 0⟩
  else if n < 0xf0 then
    .partly ⟨n - 0xe0, if n = 0xe0 then 0xa0 else 0x80, if n = 0xed then 0x9f else 0xbf, 1⟩
  else if n < 0xf5 then
    .partly ⟨n - 0xf0, if n = 0xf0 then 0x90 else 0x80, if n = 0xf4 then 0x8f else 0xbf, 2⟩
  else .illFormed

/-- The characters of a byte string, with `none` for each maximal ill-formed part. -/
def pieces : Option Partial → Bytes → List (Option Char)
  | none, [] => []
  | some _, [] => [none]
  | none, b :: bs => match lead b with
    | .done c => some c :: pieces none bs
    | .partly p => pieces (some p) bs
    | .illFormed => none :: pieces none bs
  | some p, b :: bs =>
    if p.low ≤ b.toNat ∧ b.toNat ≤ p.high then
      let bits := p.bits * 64 + (b.toNat - 0x80)
      match p.more with
      | 0 => some (Char.ofNat bits) :: pieces none bs
      | more + 1 => pieces (some ⟨bits, 0x80, 0xbf, more⟩) bs
    else match lead b with
      | .done c => none :: some c :: pieces none bs
      | .partly q => none :: pieces (some q) bs
      | .illFormed => none :: none :: pieces none bs

def characters (bs : Bytes) : List (Option Char) := pieces none bs

def decode? (bs : Bytes) : Option (List Char) := (characters bs).mapM id

def decodeLossy (bs : Bytes) : List Char := (characters bs).map (·.getD '\uFFFD')

@[simp] theorem encode_nil : encode [] = [] := rfl
@[simp] theorem encode_cons (c : Char) (cs : List Char) :
    encode (c :: cs) = String.utf8EncodeChar c ++ encode cs := rfl
@[simp] theorem encode_append (a b : List Char) : encode (a ++ b) = encode a ++ encode b := by
  simp [encode]

private theorem ofNat_lt {n : Nat} (h : n < 256) : (UInt8.ofNat n).toNat = n := by
  simp; omega

/-- An encoded character is read back, whatever follows it. -/
theorem pieces_encodeChar (c : Char) (bs : Bytes) :
    pieces none (String.utf8EncodeChar c ++ bs) = some c :: pieces none bs := by
  have hv : c.toNat < 0xd800 ∨ (0xdfff < c.toNat ∧ c.toNat < 0x110000) := by
    have := c.valid; simpa [UInt32.isValidChar, Nat.isValidChar] using this
  have hn : c.val.toNat = c.toNat := rfl
  have back : Char.ofNat c.toNat = c := Char.ofNat_toNat c
  unfold String.utf8EncodeChar
  simp only [hn]
  split
  · rename_i h1
    have e := ofNat_lt (n := c.toNat) (by omega)
    simp only [List.cons_append, List.nil_append, pieces, lead, e]
    rw [if_pos (by omega)]; simp [back]
  · split
    · rename_i h1 h2
      have e1 := ofNat_lt (n := c.toNat / 64 % 32 + 192) (by omega)
      have e2 := ofNat_lt (n := c.toNat % 64 + 128) (by omega)
      simp only [List.cons_append, List.nil_append, pieces, lead, e1, e2]
      rw [if_neg (by omega), if_neg (by omega), if_pos (by omega)]
      simp only []
      rw [if_pos (by omega)]
      rw [show (c.toNat / 64 % 32 + 192 - 192) * 64 + (c.toNat % 64 + 128 - 128) = c.toNat by
        omega, back]
    · split
      · rename_i h1 h2 h3
        have e1 := ofNat_lt (n := c.toNat / 4096 % 16 + 224) (by omega)
        have e2 := ofNat_lt (n := c.toNat / 64 % 64 + 128) (by omega)
        have e3 := ofNat_lt (n := c.toNat % 64 + 128) (by omega)
        simp only [List.cons_append, List.nil_append, pieces, lead, e1, e2, e3]
        rw [if_neg (by omega), if_neg (by omega), if_neg (by omega), if_pos (by omega)]
        simp only
        rw [if_pos (by constructor <;> split <;> omega), if_pos (by omega)]
        rw [show ((c.toNat / 4096 % 16 + 224 - 224) * 64 + (c.toNat / 64 % 64 + 128 - 128)) * 64 +
          (c.toNat % 64 + 128 - 128) = c.toNat by omega, back]
      · rename_i h1 h2 h3
        have e1 := ofNat_lt (n := c.toNat / 262144 % 8 + 240) (by omega)
        have e2 := ofNat_lt (n := c.toNat / 4096 % 64 + 128) (by omega)
        have e3 := ofNat_lt (n := c.toNat / 64 % 64 + 128) (by omega)
        have e4 := ofNat_lt (n := c.toNat % 64 + 128) (by omega)
        simp only [List.cons_append, List.nil_append, pieces, lead, e1, e2, e3, e4]
        rw [if_neg (by omega), if_neg (by omega), if_neg (by omega), if_neg (by omega),
          if_pos (by omega)]
        simp only
        rw [if_pos (by constructor <;> split <;> omega), if_pos (by omega), if_pos (by omega)]
        rw [show
          (((c.toNat / 262144 % 8 + 240 - 240) * 64 + (c.toNat / 4096 % 64 + 128 - 128)) * 64 +
          (c.toNat / 64 % 64 + 128 - 128)) * 64 + (c.toNat % 64 + 128 - 128) = c.toNat by
            omega, back]

theorem characters_encode_append (cs : List Char) (bs : Bytes) :
    characters (encode cs ++ bs) = cs.map some ++ characters bs := by
  induction cs with
  | nil => rfl
  | cons c cs ih =>
    rw [encode_cons, List.append_assoc, characters, pieces_encodeChar]
    exact congrArg (some c :: ·) ih

@[simp] theorem characters_encode (cs : List Char) : characters (encode cs) = cs.map some := by
  simpa [characters, pieces] using characters_encode_append cs []

theorem decodeLossy_encode (cs : List Char) : decodeLossy (encode cs) = cs := by
  simp [decodeLossy, Function.comp_def]

end Utf8
end ResponseCache
