import ResponseCache.Text.Utf8

/-!
# Base64

The standard alphabet with canonical padding. Reading is strict: the padding must be there and the
bits it leaves over must be zero, so every byte string has one text.
-/
namespace ResponseCache.Base64

inductive DecodeError
  | symbol (byte offset : Nat)
  | lastSymbol (byte offset : Nat)
  | length (count : Nat)
  | padding
deriving DecidableEq

def DecodeError.message : DecodeError → String
  | .symbol b i => s!"Invalid symbol {b}, offset {i}."
  | .lastSymbol b i => s!"Invalid last symbol {b}, offset {i}."
  | .length n => s!"Invalid input length: {n}"
  | .padding => "Invalid padding"

/-- The character for six bits. -/
def symbol (n : Nat) : UInt8 :=
  UInt8.ofNat <| if n < 26 then 0x41 + n else if n < 52 then 0x61 + (n - 26)
    else if n < 62 then 0x30 + (n - 52) else if n = 62 then 0x2b else 0x2f

def value? (b : UInt8) : Option Nat :=
  let n := b.toNat
  if 0x41 ≤ n ∧ n ≤ 0x5a then some (n - 0x41)
  else if 0x61 ≤ n ∧ n ≤ 0x7a then some (n - 0x61 + 26)
  else if 0x30 ≤ n ∧ n ≤ 0x39 then some (n - 0x30 + 52)
  else if n = 0x2b then some 62
  else if n = 0x2f then some 63
  else none

def pad : UInt8 := 0x3d

def encode : Bytes → Bytes
  | [] => []
  | [a] => [symbol (a.toNat / 4), symbol (a.toNat % 4 * 16), pad, pad]
  | [a, b] =>
    [symbol (a.toNat / 4), symbol (a.toNat % 4 * 16 + b.toNat / 16), symbol (b.toNat % 16 * 4), pad]
  | a :: b :: c :: bs =>
    symbol (a.toNat / 4) :: symbol (a.toNat % 4 * 16 + b.toNat / 16) ::
      symbol (b.toNat % 16 * 4 + c.toNat / 64) :: symbol (c.toNat % 64) :: encode bs

/-- The three bytes of four symbols. -/
def join (p q r s : Nat) : Bytes :=
  [UInt8.ofNat (p * 4 + q / 16), UInt8.ofNat (q % 16 * 16 + r / 4), UInt8.ofNat (r % 4 * 64 + s)]

def valueAt (b : UInt8) (offset : Nat) : Except DecodeError Nat :=
  match value? b with
  | some v => .ok v
  | none => .error (.symbol b.toNat offset)

/-- The symbols of the last group, and the offset of its first padding. -/
structure Tail where
  symbols : List (UInt8 × Nat) := []
  padded : Option Nat := none
  pads : Nat := 0

/-- Padding may stand from the group's third place on and nothing follows it. -/
def Tail.push (t : Tail) (b : UInt8) (place offset : Nat) : Except DecodeError Tail :=
  if b = pad then
    if place < 2 then .error (.symbol b.toNat offset)
    else .ok { t with padded := some (t.padded.getD offset), pads := t.pads + 1 }
  else match t.padded with
    | some first => .error (.symbol pad.toNat first)
    | none => do .ok { t with symbols := t.symbols ++ [(b, ← valueAt b offset)] }

def readTail (offset : Nat) : Nat → Tail → Bytes → Except DecodeError Tail
  | _, t, [] => .ok t
  | place, t, b :: bs => do readTail offset (place + 1) (← t.push b place (offset + place)) bs

def Tail.bytes (t : Tail) (offset : Nat) : Except DecodeError Bytes :=
  if t.symbols.length < 2 then .error (.length (offset + t.symbols.length))
  else if t.symbols.length + t.pads ≠ 4 then .error .padding
  else match t.symbols with
    | [p, q] => if q.2 % 16 = 0 then .ok ((join p.2 q.2 0 0).take 1)
      else .error (.lastSymbol q.1.toNat (offset + 1))
    | [p, q, r] => if r.2 % 4 = 0 then .ok ((join p.2 q.2 r.2 0).take 2)
      else .error (.lastSymbol r.1.toNat (offset + 2))
    | [p, q, r, s] => .ok (join p.2 q.2 r.2 s.2)
    | _ => .error .padding

/-- Four symbols at a time; the group that ends the text is the only one that may hold padding. -/
def decodeFrom (offset : Nat) : Bytes → Except DecodeError Bytes
  | a :: b :: c :: d :: e :: bs => do
    let p ← valueAt a offset
    let q ← valueAt b (offset + 1)
    let r ← valueAt c (offset + 2)
    let s ← valueAt d (offset + 3)
    let rest ← decodeFrom (offset + 4) (e :: bs)
    .ok (join p q r s ++ rest)
  | [] => .ok []
  | bs => do (← readTail offset 0 {} bs).bytes offset

/-- A text of one symbol too many is refused for a foreign last byte before anything else. -/
def decode (bs : Bytes) : Except DecodeError Bytes :=
  match bs.getLast? with
  | none => .ok []
  | some last =>
    if bs.length % 4 = 1 ∧ last ≠ pad ∧ value? last = none then
      .error (.symbol last.toNat (bs.length - 1))
    else decodeFrom 0 bs

theorem value?_symbol {n : Nat} (h : n < 64) : value? (symbol n) = some n := by
  have : ∀ n : Fin 64, value? (symbol n.1) = some n.1 := by decide
  exact this ⟨n, h⟩

example : encode [0x68, 0x65, 0x6c, 0x6c, 0x6f] = "aGVsbG8=".toList.map (UInt8.ofNat ·.toNat) := by
  decide

end ResponseCache.Base64
