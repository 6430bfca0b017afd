import ResponseCache.Text.Hex

/-!
# SHA-256

The block function runs its sixty-four rounds over a window of sixteen schedule words: each round
uses the first word and pushes the word sixteen places further on. Nothing about the strength of the
hash is asserted; only the digest's length is.
-/
namespace ResponseCache.Sha256

structure Chain where
  (a b c d e f g h : UInt32)

def start : Chain :=
  ⟨0x6a09e667, 0xbb67ae85, 0x3c6ef372, 0xa54ff53a, 0x510e527f, 0x9b05688c, 0x1f83d9ab, 0x5be0cd19⟩

def constants : List UInt32 :=
  [0x428a2f98, 0x71374491, 0xb5c0fbcf, 0xe9b5dba5, 0x3956c25b, 0x59f111f1, 0x923f82a4, 0xab1c5ed5,
   0xd807aa98, 0x12835b01, 0x243185be, 0x550c7dc3, 0x72be5d74, 0x80deb1fe, 0x9bdc06a7, 0xc19bf174,
   0xe49b69c1, 0xefbe4786, 0x0fc19dc6, 0x240ca1cc, 0x2de92c6f, 0x4a7484aa, 0x5cb0a9dc, 0x76f988da,
   0x983e5152, 0xa831c66d, 0xb00327c8, 0xbf597fc7, 0xc6e00bf3, 0xd5a79147, 0x06ca6351, 0x14292967,
   0x27b70a85, 0x2e1b2138, 0x4d2c6dfc, 0x53380d13, 0x650a7354, 0x766a0abb, 0x81c2c92e, 0x92722c85,
   0xa2bfe8a1, 0xa81a664b, 0xc24b8b70, 0xc76c51a3, 0xd192e819, 0xd6990624, 0xf40e3585, 0x106aa070,
   0x19a4c116, 0x1e376c08, 0x2748774c, 0x34b0bcb5, 0x391c0cb3, 0x4ed8aa4a, 0x5b9cca4f, 0x682e6ff3,
   0x748f82ee, 0x78a5636f, 0x84c87814, 0x8cc70208, 0x90befffa, 0xa4506ceb, 0xbef9a3f7, 0xc67178f2]

def rotate (x n : UInt32) : UInt32 := (x >>> n) ||| (x <<< (32 - n))

def Chain.round (s : Chain) (k w : UInt32) : Chain :=
  let mix := s.h + (rotate s.e 6 ^^^ rotate s.e 11 ^^^ rotate s.e 25) +
    ((s.e &&& s.f) ^^^ ((s.e ^^^ 0xffffffff) &&& s.g)) + k + w
  let vote := (rotate s.a 2 ^^^ rotate s.a 13 ^^^ rotate s.a 22) +
    ((s.a &&& s.b) ^^^ (s.a &&& s.c) ^^^ (s.b &&& s.c))
  ⟨mix + vote, s.a, s.b, s.c, s.d + mix, s.e, s.f, s.g⟩

def Chain.add (s t : Chain) : Chain :=
  ⟨s.a + t.a, s.b + t.b, s.c + t.c, s.d + t.d, s.e + t.e, s.f + t.f, s.g + t.g, s.h + t.h⟩

/-- The schedule word that follows a window of sixteen. -/
def nextWord (window : List UInt32) : UInt32 :=
  let w1 := window.getD 1 0
  let w14 := window.getD 14 0
  window.getD 0 0 + (rotate w1 7 ^^^ rotate w1 18 ^^^ (w1 >>> 3)) + window.getD 9 0 +
    (rotate w14 17 ^^^ rotate w14 19 ^^^ (w14 >>> 10))

def rounds : List UInt32 → List UInt32 → Chain → Chain
  | [], _, s => s
  | k :: ks, window, s =>
    rounds ks (window.drop 1 ++ [nextWord window]) (s.round k (window.getD 0 0))

/-- Big-endian words; bytes that fill no word are dropped. -/
def words : Bytes → List UInt32
  | a :: b :: c :: d :: bs =>
    ((a.toUInt32 <<< 24) ||| (b.toUInt32 <<< 16) ||| (c.toUInt32 <<< 8) ||| d.toUInt32) :: words bs
  | _ => []

def block (s : Chain) (bs : Bytes) : Chain := s.add (rounds constants (words bs) s)

def blocks : Nat → Bytes → Chain → Chain
  | 0, _, s => s
  | n + 1, bs, s => blocks n (bs.drop 64) (block s (bs.take 64))

def wordBytes (w : UInt32) : Bytes :=
  [(w >>> 24).toUInt8, (w >>> 16).toUInt8, (w >>> 8).toUInt8, w.toUInt8]

/-- A one bit, zeros up to eight bytes short of a block, and the length in bits. -/
def padding (length : Nat) : Bytes :=
  0x80 :: List.replicate ((119 - length % 64) % 64) 0 ++
    (List.range 8).reverse.map fun i => UInt8.ofNat ((length * 8).shiftRight (8 * i))

def Chain.bytes (s : Chain) : Bytes := [s.a, s.b, s.c, s.d, s.e, s.f, s.g, s.h].flatMap wordBytes

def digest (message : Bytes) : Bytes :=
  let padded := message ++ padding message.length
  (blocks (padded.length / 64) padded start).bytes

theorem length_digest (message : Bytes) : (digest message).length = 32 := rfl

theorem length_hex_digest (message : Bytes) : (Hex.ofBytes (digest message)).length = 64 := by
  rw [Hex.length_ofBytes, length_digest]

end ResponseCache.Sha256
