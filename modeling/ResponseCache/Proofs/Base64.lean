import ResponseCache.Text.Base64

/-!
# Base64 read back

Every byte string is read back from its text. The text comes in groups of four, and only the group
at its end takes the strict path that looks at padding.
-/
namespace ResponseCache.Base64

theorem symbol_ne_pad {n : Nat} (h : n < 64) : symbol n ≠ pad := by
  intro he
  have hv := value?_symbol h
  rw [he] at hv
  cases hv

theorem valueAt_symbol {n : Nat} (h : n < 64) (offset : Nat) :
    valueAt (symbol n) offset = .ok n := by
  rw [valueAt, value?_symbol h]

theorem join_split (a b c : UInt8) :
    join (a.toNat / 4) (a.toNat % 4 * 16 + b.toNat / 16) (b.toNat % 16 * 4 + c.toNat / 64)
      (c.toNat % 64) = [a, b, c] := by
  have ha := a.toNat_lt
  have hb := b.toNat_lt
  have hc := c.toNat_lt
  have h1 : a.toNat / 4 * 4 + (a.toNat % 4 * 16 + b.toNat / 16) / 16 = a.toNat := by omega
  have h2 : (a.toNat % 4 * 16 + b.toNat / 16) % 16 * 16 + (b.toNat % 16 * 4 + c.toNat / 64) / 4 =
      b.toNat := by omega
  have h3 : (b.toNat % 16 * 4 + c.toNat / 64) % 4 * 64 + c.toNat % 64 = c.toNat := by omega
  rw [join, h1, h2, h3, UInt8.ofNat_toNat, UInt8.ofNat_toNat, UInt8.ofNat_toNat]

theorem push_symbol {t : Tail} (ht : t.padded = none) {n : Nat} (h : n < 64) (place offset : Nat) :
    t.push (symbol n) place offset = .ok { t with symbols := t.symbols ++ [(symbol n, n)] } := by
  rw [Tail.push, if_neg (symbol_ne_pad h), ht, valueAt_symbol h]
  rfl

theorem push_pad {t : Tail} {place : Nat} (h : 2 ≤ place) (offset : Nat) :
    t.push pad place offset =
      .ok { t with padded := some (t.padded.getD offset), pads := t.pads + 1 } := by
  rw [Tail.push, if_pos rfl, if_neg (Nat.not_lt.mpr h)]

/-- Symbols at the start of the last group are kept with their values. -/
theorem readTail_symbols {ns : List Nat} (hn : ∀ n ∈ ns, n < 64) (offset place : Nat) {t : Tail}
    (ht : t.padded = none) (rest : Bytes) :
    readTail offset place t (ns.map symbol ++ rest) =
      readTail offset (place + ns.length)
        { t with symbols := t.symbols ++ ns.map fun n => (symbol n, n) } rest := by
  induction ns generalizing place t with
  | nil => simp
  | cons n ns ih =>
    have hpush := push_symbol ht (hn n List.mem_cons_self) place (offset + place)
    rw [List.map_cons, List.cons_append, readTail, hpush]
    have hrest := ih (fun m hm => hn m (List.mem_cons_of_mem _ hm)) (place + 1)
      (t := { t with symbols := t.symbols ++ [(symbol n, n)] }) ht
    apply hrest.trans
    simp [Nat.add_comm 1, Nat.add_assoc]

private theorem readTail_one_pad {offset place : Nat} (h : 2 ≤ place) (t : Tail) :
    readTail offset place t [pad] =
      .ok { t with padded := some (t.padded.getD (offset + place)), pads := t.pads + 1 } := by
  rw [readTail, push_pad h]
  rfl

private theorem readTail_two_pads {offset place : Nat} (h : 2 ≤ place) (t : Tail) :
    readTail offset place t [pad, pad] =
      .ok { t with padded := some (t.padded.getD (offset + place)), pads := t.pads + 2 } := by
  rw [readTail, push_pad h]
  exact readTail_one_pad (Nat.le_succ_of_le h) _

/-- A last group of symbols and padding is read as its bytes. -/
private theorem decodeFrom_one (offset : Nat) (a : UInt8) :
    decodeFrom offset (encode [a]) = .ok [a] := by
  have ha := a.toNat_lt
  have hj := join_split a 0 0
  have hn : ∀ n ∈ [a.toNat / 4, a.toNat % 4 * 16], n < 64 := by
    simp
    omega
  have hs := readTail_symbols hn offset 0 (t := {}) rfl [pad, pad]
  show (readTail offset 0 {} ([a.toNat / 4, a.toNat % 4 * 16].map symbol ++ [pad, pad]) >>= _) = _
  rw [hs, readTail_two_pads (by simp)]
  simp only [UInt8.toNat_zero, Nat.zero_div, Nat.zero_mod, Nat.zero_mul, Nat.add_zero] at hj
  simp [bind, Except.bind, Tail.bytes, hj]

private theorem decodeFrom_two (offset : Nat) (a b : UInt8) :
    decodeFrom offset (encode [a, b]) = .ok [a, b] := by
  have ha := a.toNat_lt
  have hb := b.toNat_lt
  have hj := join_split a b 0
  have hn : ∀ n ∈ [a.toNat / 4, a.toNat % 4 * 16 + b.toNat / 16, b.toNat % 16 * 4], n < 64 := by
    simp
    omega
  have hs := readTail_symbols hn offset 0 (t := {}) rfl [pad]
  show (readTail offset 0 {}
    ([a.toNat / 4, a.toNat % 4 * 16 + b.toNat / 16, b.toNat % 16 * 4].map symbol ++ [pad])
    >>= _) = _
  rw [hs, readTail_one_pad (by simp)]
  simp only [UInt8.toNat_zero, Nat.zero_div, Nat.zero_mod, Nat.add_zero] at hj
  simp [bind, Except.bind, Tail.bytes, hj]

private theorem decodeFrom_three (offset : Nat) (a b c : UInt8) :
    decodeFrom offset (encode [a, b, c]) = .ok [a, b, c] := by
  have ha := a.toNat_lt
  have hb := b.toNat_lt
  have hc := c.toNat_lt
  have hj := join_split a b c
  have hn :
      ∀ n ∈ [a.toNat / 4, a.toNat % 4 * 16 + b.toNat / 16, b.toNat % 16 * 4 + c.toNat / 64,
        c.toNat % 64], n < 64 := by
    simp
    omega
  have hs := readTail_symbols hn offset 0 (t := {}) rfl []
  show (readTail offset 0 {}
    ([a.toNat / 4, a.toNat % 4 * 16 + b.toNat / 16, b.toNat % 16 * 4 + c.toNat / 64,
      c.toNat % 64].map symbol ++ []) >>= _) = _
  rw [hs]
  simp [bind, Except.bind, Tail.bytes, readTail, hj]

theorem exists_cons_of_encode (b : UInt8) (bs : Bytes) : ∃ e es, encode (b :: bs) = e :: es := by
  cases bs with
  | nil => exact ⟨_, _, rfl⟩
  | cons c bs =>
    cases bs with
    | nil => exact ⟨_, _, rfl⟩
    | cons d bs => exact ⟨_, _, rfl⟩

theorem decodeFrom_encode (bs : Bytes) (offset : Nat) : decodeFrom offset (encode bs) = .ok bs := by
  induction bs using encode.induct generalizing offset with
  | case1 => rfl
  | case2 a => exact decodeFrom_one offset a
  | case3 a b => exact decodeFrom_two offset a b
  | case4 a b c bs ih =>
    cases bs with
    | nil => exact decodeFrom_three offset a b c
    | cons d bs =>
      have ha := a.toNat_lt
      have hb := b.toNat_lt
      have hc := c.toNat_lt
      have hrest := ih (offset + 4)
      obtain ⟨e, es, he⟩ := exists_cons_of_encode d bs
      rw [encode, he, decodeFrom, ← he, hrest, valueAt_symbol (by omega), valueAt_symbol (by omega),
        valueAt_symbol (by omega), valueAt_symbol (by omega)]
      show Except.ok (join _ _ _ _ ++ d :: bs) = _
      rw [join_split]
      rfl

theorem encode_length (bs : Bytes) : (encode bs).length % 4 = 0 := by
  induction bs using encode.induct with
  | case1 => rfl
  | case2 a => simp [encode]
  | case3 a b => simp [encode]
  | case4 a b c bs ih =>
    rw [encode]
    simp only [List.length_cons]
    omega

theorem decode_encode (bs : Bytes) : decode (encode bs) = .ok bs := by
  rw [decode]
  cases h : (encode bs).getLast? with
  | none =>
    cases bs with
    | nil => rfl
    | cons b bs =>
      obtain ⟨e, es, he⟩ := exists_cons_of_encode b bs
      rw [List.getLast?_eq_none_iff, he] at h
      cases h
  | some last =>
    have hlength := encode_length bs
    have hsymbols : ¬((encode bs).length % 4 = 1 ∧ last ≠ pad ∧ value? last = none) := by
      rintro ⟨hone, -, -⟩
      omega
    exact (if_neg hsymbols).trans (decodeFrom_encode bs 0)

end ResponseCache.Base64
