import ResponseCache.Proofs.Percent

/-!
# UTF-8 read strictly

Bytes that are read without a mark are the encoding of the characters read. So strict reading is one
to one, and where it succeeds lossy reading agrees with it. Encoding keeps the order of texts.
-/
namespace ResponseCache.Utf8

def fill (bits : Nat) (bs : Bytes) : Nat := bs.foldl (fun n b => n * 64 + (b.toNat - 0x80)) bits

def IsTail (b : UInt8) : Prop := 0x80 ≤ b.toNat ∧ b.toNat ≤ 0xbf

/-- Whatever bytes complete the character, with the bytes before them they are its encoding. -/
def Partial.Continues (p : Partial) (before : Bytes) : Prop :=
  ∀ b rest, rest.length = p.more → p.low ≤ b.toNat → b.toNat ≤ p.high → (∀ x ∈ rest, IsTail x) →
    String.utf8EncodeChar (Char.ofNat (fill p.bits (b :: rest))) = before ++ b :: rest

theorem toNat_ofNat {n : Nat} (h : n < 0xd800 ∨ 0xdfff < n ∧ n < 0x110000) :
    (Char.ofNat n).toNat = n := by
  rw [Char.ofNat, dif_pos h]
  rfl

theorem encodeChar_two {n : Nat} (h : 0x80 ≤ n ∧ n < 0x800) :
    String.utf8EncodeChar (Char.ofNat n) =
      [UInt8.ofNat (n / 64 + 0xc0), UInt8.ofNat (n % 64 + 0x80)] := by
  have hn : (Char.ofNat n).val.toNat = n := toNat_ofNat (.inl (by omega))
  rw [String.utf8EncodeChar]
  simp only [hn]
  rw [if_neg (by omega), if_pos (by omega), Nat.mod_eq_of_lt (by omega)]

theorem encodeChar_three {n : Nat} (h : 0x800 ≤ n ∧ n < 0x10000) (hv : n < 0xd800 ∨ 0xdfff < n) :
    String.utf8EncodeChar (Char.ofNat n) =
      [UInt8.ofNat (n / 4096 + 0xe0), UInt8.ofNat (n / 64 % 64 + 0x80),
        UInt8.ofNat (n % 64 + 0x80)] := by
  have hn : (Char.ofNat n).val.toNat = n := toNat_ofNat (by omega)
  rw [String.utf8EncodeChar]
  simp only [hn]
  rw [if_neg (by omega), if_neg (by omega), if_pos (by omega),
    Nat.mod_eq_of_lt (a := n / 4096) (by omega)]

theorem encodeChar_four {n : Nat} (h : 0x10000 ≤ n ∧ n < 0x110000) :
    String.utf8EncodeChar (Char.ofNat n) =
      [UInt8.ofNat (n / 262144 + 0xf0), UInt8.ofNat (n / 4096 % 64 + 0x80),
        UInt8.ofNat (n / 64 % 64 + 0x80), UInt8.ofNat (n % 64 + 0x80)] := by
  have hn : (Char.ofNat n).val.toNat = n := toNat_ofNat (by omega)
  rw [String.utf8EncodeChar]
  simp only [hn]
  rw [if_neg (by omega), if_neg (by omega), if_neg (by omega),
    Nat.mod_eq_of_lt (a := n / 262144) (by omega)]

private theorem ofNat_eq {n : Nat} {b : UInt8} (h : n = b.toNat) : UInt8.ofNat n = b := by
  rw [h, UInt8.ofNat_toNat]

/-- The bounds on the second byte are what makes every completion a character, and its shortest
encoding. -/
theorem continues_of_lead {b : UInt8} {p : Partial} (h : lead b = .partly p) : p.Continues [b] := by
  intro c rest hlength hlow hhigh hrest
  have hb := b.toNat_lt
  rw [lead] at h
  split at h
  · cases h
  · split at h
    · cases h
    · split at h
      · -- two bytes
        obtain rfl := Lead.partly.inj h
        obtain rfl := List.length_eq_zero_iff.mp hlength
        simp only [fill, List.foldl_cons, List.foldl_nil] at *
        rw [encodeChar_two (by omega), ofNat_eq (b := b) (by omega), ofNat_eq (b := c) (by omega)]
        rfl
      · split at h
        · -- three bytes
          obtain rfl := Lead.partly.inj h
          obtain ⟨d, rfl⟩ := List.length_eq_one_iff.mp hlength
          obtain ⟨hd, hd'⟩ := hrest d List.mem_cons_self
          simp only [fill, List.foldl_cons, List.foldl_nil] at *
          have hbounds : (b.toNat = 0xe0 → 0xa0 ≤ c.toNat) ∧ (b.toNat = 0xed → c.toNat ≤ 0x9f) ∧
              0x80 ≤ c.toNat ∧ c.toNat ≤ 0xbf := by
            split at hlow <;> split at hhigh <;> omega
          rw [encodeChar_three (by omega) (by omega), ofNat_eq (b := b) (by omega),
            ofNat_eq (b := c) (by omega), ofNat_eq (b := d) (by omega)]
          rfl
        · split at h
          · -- four bytes
            obtain rfl := Lead.partly.inj h
            obtain ⟨d, tail, rfl⟩ := List.exists_cons_of_length_eq_add_one hlength
            obtain ⟨e, rfl⟩ := List.length_eq_one_iff.mp (Nat.succ.inj hlength)
            obtain ⟨hd, hd'⟩ := hrest d List.mem_cons_self
            obtain ⟨he, he'⟩ := hrest e (List.mem_cons_of_mem _ List.mem_cons_self)
            simp only [fill, List.foldl_cons, List.foldl_nil] at *
            have hbounds : (b.toNat = 0xf0 → 0x90 ≤ c.toNat) ∧ (b.toNat = 0xf4 → c.toNat ≤ 0x8f) ∧
                0x80 ≤ c.toNat ∧ c.toNat ≤ 0xbf := by
              split at hlow <;> split at hhigh <;> omega
            rw [encodeChar_four (by omega), ofNat_eq (b := b) (by omega),
              ofNat_eq (b := c) (by omega), ofNat_eq (b := d) (by omega),
              ofNat_eq (b := e) (by omega)]
            rfl
          · cases h

theorem Partial.Continues.next {p : Partial} {before : Bytes} {b : UInt8} {more : Nat}
    (h : p.Continues before) (hmore : p.more = more + 1) (hb : p.low ≤ b.toNat ∧ b.toNat ≤ p.high) :
    Partial.Continues ⟨p.bits * 64 + (b.toNat - 0x80), 0x80, 0xbf, more⟩ (before ++ [b]) := by
  intro c rest hlength hlow hhigh hrest
  have hall : ∀ x ∈ c :: rest, IsTail x := by
    intro x hx
    rcases List.mem_cons.mp hx with rfl | hx
    · exact ⟨hlow, hhigh⟩
    · exact hrest x hx
  have hcount : (c :: rest).length = p.more := by rw [hmore, List.length_cons, hlength]
  have hfilled := h b (c :: rest) hcount hb.1 hb.2 hall
  simpa only [fill, List.foldl_cons, List.append_assoc, List.cons_append, List.nil_append]
    using hfilled

/-- What stands before the rest of a reading: nothing, or the start of a character. -/
def Stands : Option Partial → Bytes → Prop
  | none, before => before = []
  | some p, before => p.Continues before

theorem encodeChar_of_lead {b : UInt8} {c : Char} (h : lead b = .done c) :
    String.utf8EncodeChar c = [b] := by
  rw [lead] at h
  split at h
  · rename_i hlt
    cases h
    have hc := Text.toNat_ofNat_of_ascii hlt
    rw [encodeChar_of_ascii (hc.symm ▸ hlt), hc, UInt8.ofNat_toNat]
  · repeat' split at h
    all_goals cases h

private theorem marked_ne_map {marked : List (Option Char)} {cs : List Char}
    (h : none :: marked = cs.map some) : False := by
  cases cs <;> cases h

private theorem exists_of_cons {c : Char} {read : List (Option Char)} {cs : List Char}
    (h : some c :: read = cs.map some) : ∃ rest, cs = c :: rest ∧ read = rest.map some := by
  obtain ⟨d, rest, rfl, hc, hrest⟩ := List.map_eq_cons_iff.mp h.symm
  exact ⟨rest, by rw [Option.some.inj hc], hrest.symm⟩

theorem encode_of_pieces {state : Option Partial} {bs before : Bytes} {cs : List Char}
    (hstands : Stands state before) (h : pieces state bs = cs.map some) :
    encode cs = before ++ bs := by
  fun_induction pieces state bs generalizing before cs with
  | case1 =>
    obtain rfl : before = [] := hstands
    rw [List.map_eq_nil_iff.mp h.symm]
    rfl
  | case3 b bs c hlead ih =>
    obtain rfl : before = [] := hstands
    obtain ⟨rest, rfl, hrest⟩ := exists_of_cons h
    rw [encode_cons, encodeChar_of_lead hlead, ih rfl hrest]
    rfl
  | case4 b bs p hlead ih =>
    obtain rfl : before = [] := hstands
    exact ih (continues_of_lead hlead) h
  | case6 p b bs hb bits hmore =>
    rename_i ih
    obtain ⟨rest, rfl, hrest⟩ := exists_of_cons h
    have hchar := hstands b [] hmore.symm hb.1 hb.2 (fun _ hx => nomatch hx)
    simp only [fill, List.foldl_cons, List.foldl_nil] at hchar
    rw [encode_cons, ih rfl hrest, List.nil_append, hchar, List.append_assoc]
    rfl
  | case7 p b bs hb bits more hmore =>
    rename_i ih
    rw [ih (Partial.Continues.next hstands hmore hb) h, List.append_assoc]
    rfl
  | case2 | case5 | case8 | case9 | case10 => exact (marked_ne_map h).elim

theorem mapM_id_eq_some_iff {read : List (Option Char)} {cs : List Char} :
    read.mapM id = some cs ↔ read = cs.map some := by
  induction read generalizing cs with
  | nil => cases cs <;> simp
  | cons o read ih =>
    cases o with
    | none =>
      constructor
      · intro h
        cases h
      · intro h
        exact (marked_ne_map h).elim
    | some c =>
      have hstep : (some c :: read).mapM id = (read.mapM id).map (c :: ·) := by
        rw [List.mapM_cons]
        cases read.mapM id <;> rfl
      rw [hstep, Option.map_eq_some_iff]
      constructor
      · rintro ⟨rest, hrest, rfl⟩
        rw [ih.mp hrest, List.map_cons]
      · intro h
        obtain ⟨rest, rfl, hrest⟩ := exists_of_cons h
        exact ⟨rest, ih.mpr hrest, rfl⟩

/-- Strict reading undoes encoding, and nothing else can be read. -/
theorem decode?_eq_some_iff {bs : Bytes} {cs : List Char} :
    decode? bs = some cs ↔ bs = encode cs := by
  rw [decode?, mapM_id_eq_some_iff]
  constructor
  · intro h
    exact (@encode_of_pieces none bs [] cs rfl h).symm
  · rintro rfl
    exact characters_encode cs

def IsText (bs : Bytes) : Prop := (decode? bs).isSome = true

instance (bs : Bytes) : Decidable (IsText bs) := inferInstanceAs (Decidable (_ = true))

theorem isText_iff {bs : Bytes} : IsText bs ↔ ∃ cs, bs = encode cs := by
  simp only [IsText, Option.isSome_iff_exists, decode?_eq_some_iff]

theorem encode_decodeLossy {bs : Bytes} (h : IsText bs) : encode (decodeLossy bs) = bs := by
  obtain ⟨cs, rfl⟩ := isText_iff.mp h
  rw [decodeLossy_encode]

theorem encode_eq_nil_iff {cs : List Char} : encode cs = [] ↔ cs = [] := by
  constructor
  · intro h
    rw [← decodeLossy_encode cs, h]
    rfl
  · rintro rfl
    rfl

theorem encodeChar_cases (c : Char) :
    c.toNat < 0x80 ∧ String.utf8EncodeChar c = [UInt8.ofNat c.toNat] ∨
    (0x80 ≤ c.toNat ∧ c.toNat < 0x800) ∧
      String.utf8EncodeChar c =
        [UInt8.ofNat (c.toNat / 64 + 0xc0), UInt8.ofNat (c.toNat % 64 + 0x80)] ∨
    (0x800 ≤ c.toNat ∧ c.toNat < 0x10000) ∧ String.utf8EncodeChar c =
      [UInt8.ofNat (c.toNat / 4096 + 0xe0), UInt8.ofNat (c.toNat / 64 % 64 + 0x80),
        UInt8.ofNat (c.toNat % 64 + 0x80)] ∨
    (0x10000 ≤ c.toNat ∧ c.toNat < 0x110000) ∧ String.utf8EncodeChar c =
      [UInt8.ofNat (c.toNat / 262144 + 0xf0), UInt8.ofNat (c.toNat / 4096 % 64 + 0x80),
        UInt8.ofNat (c.toNat / 64 % 64 + 0x80), UInt8.ofNat (c.toNat % 64 + 0x80)] := by
  have hvalid : c.toNat < 0xd800 ∨ 0xdfff < c.toNat ∧ c.toNat < 0x110000 := c.valid
  have hback : Char.ofNat c.toNat = c := Char.ofNat_toNat c
  by_cases hone : c.toNat < 0x80
  · exact .inl ⟨hone, encodeChar_of_ascii hone⟩
  by_cases htwo : c.toNat < 0x800
  · refine .inr (.inl ⟨⟨by omega, htwo⟩, ?_⟩)
    rw [← encodeChar_two ⟨by omega, htwo⟩, hback]
  by_cases hthree : c.toNat < 0x10000
  · refine .inr (.inr (.inl ⟨⟨by omega, hthree⟩, ?_⟩))
    rw [← encodeChar_three ⟨by omega, hthree⟩ (by omega), hback]
  · refine .inr (.inr (.inr ⟨⟨by omega, by omega⟩, ?_⟩))
    rw [← encodeChar_four ⟨by omega, by omega⟩, hback]

private theorem ofNat_cons_lt_iff {m n : Nat} {bs bs' : Bytes} (hm : m < 256) (hn : n < 256) :
    UInt8.ofNat m :: bs < UInt8.ofNat n :: bs' ↔ m < n ∨ m = n ∧ bs < bs' := by
  rw [List.cons_lt_cons_iff, UInt8.lt_iff_toNat_lt, ← UInt8.toNat_inj, UInt8.toNat_ofNat',
    UInt8.toNat_ofNat', Nat.mod_eq_of_lt hm, Nat.mod_eq_of_lt hn]

/-- The bytes of a lesser character come before those of a greater one, whatever follows either. -/
theorem encodeChar_lt {c d : Char} (h : c < d) (bs bs' : Bytes) :
    String.utf8EncodeChar c ++ bs < String.utf8EncodeChar d ++ bs' := by
  have hlt : c.toNat < d.toNat := h
  rcases encodeChar_cases c with ⟨hc, ec⟩ | ⟨hc, ec⟩ | ⟨hc, ec⟩ | ⟨hc, ec⟩ <;>
    rcases encodeChar_cases d with ⟨hd, ed⟩ | ⟨hd, ed⟩ | ⟨hd, ed⟩ | ⟨hd, ed⟩
  -- a longer encoding starts with a greater byte, and of two as long the first digit that differs
  -- decides
  all_goals
    rw [ec, ed]
    simp (disch := omega) only [List.cons_append, List.nil_append, ofNat_cons_lt_iff]
    omega

theorem encode_lt {cs ds : List Char} (h : cs < ds) : encode cs < encode ds := by
  induction cs generalizing ds with
  | nil =>
    cases ds with
    | nil => exact absurd h (List.not_lt_nil _)
    | cons d ds =>
      obtain ⟨b, bs, hbytes⟩ := List.exists_cons_of_ne_nil (String.utf8EncodeChar_ne_nil (c := d))
      rw [encode_cons, hbytes]
      exact List.nil_lt_cons _ _
  | cons c cs ih =>
    cases ds with
    | nil => exact absurd h (List.not_lt_nil _)
    | cons d ds =>
      rcases List.cons_lt_cons_iff.mp h with hlt | ⟨rfl, hrest⟩
      · exact encodeChar_lt hlt _ _
      · exact List.append_left_lt (ih hrest)

/-- The byte of an ASCII character is no part of a longer one. -/
theorem encodeChar_of_mem {c d : Char} (hc : c.toNat < 0x80)
    (h : UInt8.ofNat c.toNat ∈ String.utf8EncodeChar d) :
    d = c ∧ String.utf8EncodeChar d = [UInt8.ofNat c.toNat] := by
  rcases encodeChar_cases d with ⟨hd, hbytes⟩ | ⟨hd, hbytes⟩ | ⟨hd, hbytes⟩ | ⟨hd, hbytes⟩
  · have hsame : d.toNat = c.toNat := by
      simp only [hbytes, List.mem_singleton, ← UInt8.toNat_inj, UInt8.toNat_ofNat'] at h
      omega
    have hchar : d = c := by rw [← Char.ofNat_toNat d, hsame, Char.ofNat_toNat]
    exact ⟨hchar, by rw [hbytes, hsame]⟩
  -- every byte of a longer encoding is 0x80 or greater
  all_goals
    rw [hbytes] at h
    simp only [List.mem_cons, List.not_mem_nil, or_false, ← UInt8.toNat_inj,
      UInt8.toNat_ofNat'] at h
    omega

theorem mem_encode_iff {c : Char} {cs : List Char} (hc : c.toNat < 0x80) :
    UInt8.ofNat c.toNat ∈ encode cs ↔ c ∈ cs := by
  constructor
  · intro h
    obtain ⟨d, hd, hbyte⟩ := List.mem_flatMap.mp h
    rw [← (encodeChar_of_mem hc hbyte).1]
    exact hd
  · intro h
    refine List.mem_flatMap.mpr ⟨c, h, ?_⟩
    rw [encodeChar_of_ascii hc]
    exact List.mem_singleton_self _

/-- The bytes of a text can be cut where the text can be cut at an ASCII character. -/
theorem exists_of_encode_append {cs : List Char} {before after : Bytes} {c : Char}
    (hc : c.toNat < 0x80) (h : encode cs = before ++ UInt8.ofNat c.toNat :: after) :
    ∃ lead trail, cs = lead ++ c :: trail ∧ encode lead = before ∧ encode trail = after := by
  induction cs generalizing before with
  | nil => simp at h
  | cons d cs ih =>
    rw [encode_cons] at h
    rcases List.append_eq_append_iff.mp h with ⟨rest, rfl, hrest⟩ | ⟨inside, hchar, hrest⟩
    · obtain ⟨lead, trail, rfl, rfl, rfl⟩ := ih hrest
      exact ⟨d :: lead, trail, rfl, rfl, rfl⟩
    · cases inside with
      | nil =>
        obtain ⟨lead, trail, rfl, hlead, rfl⟩ := @ih [] hrest.symm
        refine ⟨d :: lead, trail, rfl, ?_, rfl⟩
        rw [encode_cons, hlead, hchar, List.append_nil, List.append_nil]
      | cons b inside =>
        obtain ⟨rfl, htail⟩ := List.cons.inj hrest
        have hmem : UInt8.ofNat c.toNat ∈ String.utf8EncodeChar d := by simp [hchar]
        obtain ⟨rfl, hbyte⟩ := encodeChar_of_mem hc hmem
        rw [hbyte] at hchar
        rcases List.singleton_eq_append_iff.mp hchar with ⟨rfl, hone⟩ | ⟨-, hnone⟩
        · rw [(List.cons.inj hone).2] at htail
          exact ⟨[], cs, rfl, rfl, htail.symm⟩
        · cases hnone

end ResponseCache.Utf8
