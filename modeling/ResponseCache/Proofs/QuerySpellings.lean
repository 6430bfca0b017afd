import ResponseCache.Proofs.Heads

/-!
# Spellings of a query

A parameter can be written in many ways: a byte as itself or as an escape, a space as a plus sign,
and a name alone where the value is empty. Segments without anything in them may stand anywhere. All
spellings are read alike, so heads that ask for the same set of parameters share a key.
-/
namespace ResponseCache

namespace Query

/-- The percent sign, the ampersand, the plus sign and the equals sign. -/
def signs : Bytes := [0x25, 0x26, 0x2b, 0x3d]

/-- The first bytes can be written as the second: a sign only as an escape, with letters of either
case in it. -/
inductive Writes : Bytes → Bytes → Prop
  | nil : Writes [] []
  | literal {b bs ws} (hb : b ∉ signs) (rest : Writes bs ws) : Writes (b :: bs) (b :: ws)
  | plus {bs ws} (rest : Writes bs ws) : Writes (0x20 :: bs) (0x2b :: ws)
  | escape {b high low bs ws} (hhigh : Hex.digitValue high.toNat = some (b.toNat / 16))
      (hlow : Hex.digitValue low.toNat = some (b.toNat % 16)) (rest : Writes bs ws) :
      Writes (b :: bs) (0x25 :: high :: low :: ws)

inductive Segment : String × String → Bytes → Prop
  | assignment {name value ws vs} (hname : Writes (Utf8.encode name.toList) ws)
      (hvalue : Writes (Utf8.encode value.toList) vs) : Segment (name, value) (ws ++ 0x3d :: vs)
  | name {name ws} (hne : name ≠ "") (hname : Writes (Utf8.encode name.toList) ws) :
    Segment (name, "") ws

inductive Segments : List (String × String) → List Bytes → Prop
  | nil : Segments [] []
  | empty {ps segments} (rest : Segments ps segments) : Segments ps ([] :: segments)
  | cons {p ps segment segments} (first : Segment p segment) (rest : Segments ps segments) :
      Segments (p :: ps) (segment :: segments)

def Spells (ps : List (String × String)) (query : Bytes) : Prop :=
  ∃ segments, Segments ps segments ∧ query = [0x26].intercalate segments

/-- A plus sign is one byte, so it can be replaced before the text is encoded or after. -/
theorem encode_spaced (cs : List Char) :
    Utf8.encode (cs.map fun c => if c = '+' then ' ' else c) =
      (Utf8.encode cs).map fun b => if b = 0x2b then 0x20 else b := by
  induction cs with
  | nil => rfl
  | cons c cs ih =>
    rw [List.map_cons, Utf8.encode_cons, Utf8.encode_cons, List.map_append, ih]
    congr 1
    by_cases hc : c = '+'
    · subst hc
      decide
    · rw [if_neg hc]
      have hsame : ∀ b ∈ String.utf8EncodeChar c, (if b = 0x2b then 0x20 else b) = b := by
        intro b hb
        refine if_neg ?_
        rintro rfl
        exact hc (Utf8.encodeChar_of_mem (c := '+') (by decide) hb).1
      rw [List.map_congr_left hsame, List.map_id']

theorem Writes.literals {bs : Bytes} (h : ∀ b ∈ bs, b ∉ signs) : Writes bs bs := by
  induction bs with
  | nil => exact .nil
  | cons b bs ih =>
    exact .literal (h b List.mem_cons_self) (ih fun c hc => h c (List.mem_cons_of_mem b hc))

theorem digit_not_mem_signs {b : UInt8} {v : Nat} (h : Hex.digitValue b.toNat = some v) :
    b ∉ signs := by
  have hdigit := Hex.digit_of_digitValue h
  simp only [signs, List.mem_cons, List.not_mem_nil, or_false, ← UInt8.toNat_inj, UInt8.toNat_ofNat]
  omega

/-- The signs that separate are never part of what is written. -/
theorem Writes.not_mem {bs ws : Bytes} (h : Writes bs ws) {sep : UInt8}
    (hsep : sep = 0x26 ∨ sep = 0x3d) : sep ∉ ws := by
  have hsign : sep ∈ signs := by rcases hsep with rfl | rfl <;> decide
  have hplus : sep ≠ 0x2b := by rcases hsep with rfl | rfl <;> decide
  have hpercent : sep ≠ 0x25 := by rcases hsep with rfl | rfl <;> decide
  have hne : ∀ {b : UInt8}, b ∉ signs → sep ≠ b := fun hb heq => hb (heq ▸ hsign)
  induction h with
  | nil => exact List.not_mem_nil
  | literal hb rest ih => simp [hne hb, ih]
  | plus rest ih => simp [hplus, ih]
  | escape hhigh hlow rest ih =>
    simp [hpercent, hne (digit_not_mem_signs hhigh), hne (digit_not_mem_signs hlow), ih]

theorem decodeBytes_of_writes {bs ws : Bytes} (h : Writes bs ws) :
    Percent.decodeBytes (ws.map fun b => if b = 0x2b then 0x20 else b) = bs := by
  have hkept : ∀ {b : UInt8}, b ∉ signs → (if b = 0x2b then 0x20 else b) = b := by
    intro b hb
    refine if_neg ?_
    rintro rfl
    exact hb (by decide)
  induction h with
  | nil => rfl
  | @literal b bs ws hb rest ih =>
    have hpercent : b ≠ 0x25 := by
      rintro rfl
      exact hb (by decide)
    rw [List.map_cons, hkept hb, Percent.decodeBytes_cons_of_ne hpercent, ih]
  | plus rest ih =>
    rw [List.map_cons, if_pos rfl, Percent.decodeBytes_cons_of_ne (by decide), ih]
  | escape hhigh hlow rest ih =>
    rw [List.map_cons, List.map_cons, List.map_cons, if_neg (by decide),
      hkept (digit_not_mem_signs hhigh), hkept (digit_not_mem_signs hlow),
      Percent.decodeBytes_digits hhigh hlow, ih]

theorem decode_of_writes {s : String} {cs : List Char}
    (h : Writes (Utf8.encode s.toList) (Utf8.encode cs)) : decode cs = s := by
  rw [decode, Percent.decode, encode_spaced, decodeBytes_of_writes h, Utf8.decodeLossy_encode,
    String.ofList_toList]

theorem Writes.equals_not_mem {bs : Bytes} {cs : List Char} (h : Writes bs (Utf8.encode cs)) :
    '=' ∉ cs :=
  fun hmem => h.not_mem (.inr rfl) ((Utf8.mem_encode_iff (c := '=') (by decide)).mpr hmem)

theorem Segment.ne_nil {p : String × String} {segment : Bytes} (h : Segment p segment) :
    segment ≠ [] := by
  cases h with
  | assignment => simp
  | name hne hname =>
    rintro rfl
    exact hne (@decode_of_writes _ [] hname).symm

theorem Segment.ampersand_not_mem {p : String × String} {segment : Bytes} (h : Segment p segment) :
    0x26 ∉ segment := by
  cases h with
  | assignment hname hvalue => simp [hname.not_mem (.inl rfl), hvalue.not_mem (.inl rfl)]
  | name hne hname => exact hname.not_mem (.inl rfl)

theorem pair_of_segment {p : String × String} {cs : List Char} (h : Segment p (Utf8.encode cs)) :
    pair cs = p := by
  generalize hbytes : Utf8.encode cs = segment at h
  cases h with
  | assignment hname hvalue =>
    obtain ⟨lead, trail, rfl, rfl, rfl⟩ :=
      Utf8.exists_of_encode_append (c := '=') (by decide) hbytes
    rw [pair, Text.splitOnce_append hname.equals_not_mem]
    exact Prod.ext (decode_of_writes hname) (decode_of_writes hvalue)
  | name hne hname =>
    subst hbytes
    rw [pair, Text.splitOnce_none_iff.mpr hname.equals_not_mem]
    exact Prod.ext (decode_of_writes hname) rfl

theorem Segments.ampersand_not_mem {ps : List (String × String)} {segments : List Bytes}
    (h : Segments ps segments) : ∀ segment ∈ segments, 0x26 ∉ segment := by
  induction h with
  | nil => simp
  | empty rest ih => simpa using ih
  | cons first rest ih => simpa [first.ampersand_not_mem] using ih

theorem read_of_segments {ps : List (String × String)} {parts : List (List Char)}
    (h : Segments ps (parts.map Utf8.encode)) : (parts.filter (!·.isEmpty)).map pair = ps := by
  generalize hsegments : parts.map Utf8.encode = segments at h
  induction h generalizing parts with
  | nil =>
    obtain rfl := List.map_eq_nil_iff.mp hsegments
    rfl
  | empty rest ih =>
    obtain ⟨part, parts, rfl, hpart, hparts⟩ := List.map_eq_cons_iff.mp hsegments
    obtain rfl := Utf8.encode_eq_nil_iff.mp hpart
    simpa using ih hparts
  | cons first rest ih =>
    obtain ⟨part, parts, rfl, rfl, hparts⟩ := List.map_eq_cons_iff.mp hsegments
    have hne : part ≠ [] := by
      rintro rfl
      exact first.ne_nil rfl
    simp [hne, pair_of_segment first, ih hparts]

theorem exists_of_encode_intercalate {cs : List Char} {segments : List Bytes} (hne : segments ≠ [])
    (h : Utf8.encode cs = [0x26].intercalate segments) :
    ∃ parts, cs = ['&'].intercalate parts ∧ parts.map Utf8.encode = segments := by
  induction segments generalizing cs with
  | nil => exact absurd rfl hne
  | cons segment segments ih =>
    cases segments with
    | nil => exact ⟨[cs], by simp, by simpa using h⟩
    | cons next segments =>
      rw [List.intercalate_cons_cons, List.append_assoc] at h
      obtain ⟨lead, trail, rfl, rfl, htrail⟩ :=
        Utf8.exists_of_encode_append (c := '&') (by decide) h
      obtain ⟨parts, rfl, hparts⟩ := ih (List.cons_ne_nil _ _) htrail
      obtain ⟨first, rest, rfl⟩ : ∃ first rest, parts = first :: rest := by
        apply List.exists_cons_of_ne_nil
        rintro rfl
        cases hparts
      refine ⟨lead :: first :: rest, ?_, by rw [List.map_cons, hparts]⟩
      rw [List.intercalate_cons_cons, List.append_assoc]
      rfl

/-- Every spelling is read as what it spells. -/
theorem read_of_spells {ps : List (String × String)} {cs : List Char}
    (h : Spells ps (Utf8.encode cs)) : read cs = ps := by
  obtain ⟨segments, hsegments, hquery⟩ := h
  by_cases hne : segments = []
  · subst hne
    cases hsegments
    obtain rfl := Utf8.encode_eq_nil_iff.mp hquery
    rfl
  · obtain ⟨parts, rfl, rfl⟩ := exists_of_encode_intercalate hne hquery
    have hcut : (['&'].intercalate parts).splitOn '&' = parts := by
      apply List.splitOn_intercalate
      · intro part hpart hmem
        refine hsegments.ampersand_not_mem _ (List.mem_map_of_mem hpart) ?_
        exact (Utf8.mem_encode_iff (c := '&') (by decide)).mpr hmem
      · rintro rfl
        exact hne rfl
    rw [read, hcut, read_of_segments hsegments]

end Query

namespace Head

/-- The bytes between the first two spaces, not counting empty lines in front. -/
def targetBytes (bs : Bytes) : Bytes :=
  (((bs.dropWhile fun b => b == 0x0a || b == 0x0d).dropWhile (· != 0x20)).drop 1).takeWhile
    (· != 0x20)

def queryBytes (bs : Bytes) : Bytes := ((targetBytes bs).dropWhile (· != 0x3f)).drop 1

private theorem all_ne {sep : UInt8} {w : Bytes} (h : sep ∉ w) : ∀ b ∈ w, (b != sep) = true :=
  fun _ hb => bne_iff_ne.mpr fun heq => h (heq ▸ hb)

private theorem dropWhile_ne {sep : UInt8} {w : Bytes} (h : sep ∉ w) (rest : Bytes) :
    (w ++ sep :: rest).dropWhile (· != sep) = sep :: rest := by
  rw [List.dropWhile_append_of_pos (all_ne h), List.dropWhile_cons_of_neg (by simp)]

private theorem takeWhile_ne {sep : UInt8} {w : Bytes} (h : sep ∉ w) (rest : Bytes) :
    (w ++ sep :: rest).takeWhile (· != sep) = w := by
  rw [List.takeWhile_append_of_pos (all_ne h), List.takeWhile_cons_of_neg (by simp),
    List.append_nil]

theorem skipEmptyLines_eq {bs rest : Bytes} (h : skipEmptyLines bs = .ok rest) :
    rest = bs.dropWhile fun b => b == 0x0a || b == 0x0d := by
  fun_induction skipEmptyLines bs with
  | case1 => cases h
  | case2 => cases h
  | case3 b hb =>
    obtain rfl := Except.ok.inj h
    simp [not_or.mp hb]
  | case4 c bs ih => simpa using ih h
  | case5 bs hnot ih => simpa using ih h
  | case6 => cases h
  | case7 b c bs hlf hcr =>
    obtain rfl := Except.ok.inj h
    simp [hlf, hcr]

theorem word_eq {kind : UInt8 → Bool} {bs w rest : Bytes} (h : word kind bs = .ok (w, rest)) :
    bs = w ++ 0x20 :: rest ∧ ∀ b ∈ w, kind b = true := by
  have hwhole := List.takeWhile_append_dropWhile (p := kind) (l := bs)
  have hkind : ∀ b ∈ bs.takeWhile kind, kind b = true := List.all_eq_true.mp List.all_takeWhile
  rw [word] at h
  cases hrest : bs.dropWhile kind with
  | nil => simp [hrest] at h
  | cons b tail =>
    cases hfirst : bs.takeWhile kind with
    | nil => simp [hrest, hfirst] at h
    | cons c cs =>
      rw [hrest, hfirst] at hwhole
      rw [hfirst] at hkind
      simp only [hrest, hfirst] at h
      split at h
      · rename_i hspace
        obtain ⟨rfl, rfl⟩ := Prod.mk.inj (Except.ok.inj h)
        rw [hspace] at hwhole
        exact ⟨hwhole.symm, hkind⟩
      · cases h

private theorem exists_of_bind {ε α β : Type} {x : Except ε α} {f : α → Except ε β} {b : β}
    (h : x >>= f = .ok b) : ∃ a, x = .ok a ∧ f a = .ok b := by
  cases x with
  | error e => cases h
  | ok a => exact ⟨a, rfl, h⟩

/-- An accepted head starts with empty lines and two words. -/
theorem exists_words {bs : Bytes} {h : Head} (hh : ofBytes bs = .ok h) :
    ∃ method rest, (bs.dropWhile fun b => b == 0x0a || b == 0x0d) =
      method ++ 0x20 :: (Utf8.encode h.target ++ 0x20 :: rest) ∧
      (∀ b ∈ method, isTokenByte b = true) ∧ ∀ b ∈ Utf8.encode h.target, isTargetByte b = true := by
  obtain ⟨lines, hlines, hh⟩ := exists_of_bind hh
  obtain ⟨⟨method, afterMethod⟩, hmethod, hh⟩ := exists_of_bind hh
  obtain ⟨⟨target, afterTarget⟩, htarget, hh⟩ := exists_of_bind hh
  dsimp only at hh
  cases hdecode : Utf8.decode? target with
  | none =>
    rw [hdecode] at hh
    cases hh
  | some cs =>
    rw [hdecode] at hh
    obtain ⟨_, _, hh⟩ := exists_of_bind hh
    obtain ⟨_, _, hh⟩ := exists_of_bind hh
    obtain ⟨fields, _, hh⟩ := exists_of_bind hh
    obtain rfl := Except.ok.inj hh
    obtain ⟨rfl, htoken⟩ := word_eq hmethod
    obtain ⟨rfl, hbytes⟩ := word_eq htarget
    obtain rfl := Utf8.decode?_eq_some_iff.mp hdecode
    exact ⟨method, afterTarget, (skipEmptyLines_eq hlines).symm, htoken, hbytes⟩

theorem targetBytes_eq {bs : Bytes} {h : Head} (hh : ofBytes bs = .ok h) :
    targetBytes bs = Utf8.encode h.target := by
  obtain ⟨method, rest, hbs, htoken, hbytes⟩ := exists_words hh
  have hmethod : 0x20 ∉ method := fun hspace => absurd (htoken _ hspace) (by decide)
  have htarget : 0x20 ∉ Utf8.encode h.target := fun hspace => absurd (hbytes _ hspace) (by decide)
  rw [targetBytes, hbs, dropWhile_ne hmethod, List.drop_one, List.tail_cons, takeWhile_ne htarget]

/-- The query that is read is the one that the head has. -/
theorem queryBytes_eq {bs : Bytes} {h : Head} (hh : ofBytes bs = .ok h) :
    queryBytes bs = Utf8.encode h.pathAndQuery.2 := by
  rw [queryBytes, targetBytes_eq hh, pathAndQuery]
  have hmark : ∀ {cs : List Char}, '?' ∉ cs → 0x3f ∉ Utf8.encode cs :=
    fun hcs hmem => hcs ((Utf8.mem_encode_iff (c := '?') (by decide)).mp hmem)
  cases hcut : Text.splitOnce '?' h.target with
  | none =>
    have hall := all_ne (hmark (Text.splitOnce_none_iff.mp hcut))
    rw [← List.append_nil (Utf8.encode h.target), List.dropWhile_append_of_pos hall]
    rfl
  | some parts =>
    obtain ⟨path, query⟩ := parts
    obtain ⟨htarget, hpath⟩ := Text.splitOnce_some hcut
    have hdrop := dropWhile_ne (hmark hpath) (Utf8.encode query)
    rw [htarget, Utf8.encode_append, Utf8.encode_cons]
    rw [show String.utf8EncodeChar '?' = [0x3f] by decide, List.singleton_append, hdrop]
    rfl

end Head

namespace Request

theorem query_eq_of_spells {bs : Bytes} {r : Request} {ps : List (String × String)}
    (hr : ofBytes bs = .ok r) (hps : Query.Spells ps (Head.queryBytes bs)) : r.query = ps := by
  obtain ⟨h, hh, rfl⟩ := exists_head hr
  rw [Head.queryBytes_eq hh] at hps
  exact Query.read_of_spells hps

/-- A head whose query spells some parameters asks for these. Every other head that asks the same
host for the same path with the same method has the same key, if its query spells the same
parameters: in any order, each any number of times, and in any spelling. -/
theorem key_of_spelling {bs : Bytes} {r : Request} {ps : List (String × String)}
    (hr : ofBytes bs = .ok r) (hps : Query.Spells ps (Head.queryBytes bs)) :
    r.query = ps ∧
    ∀ {bs' : Bytes} {r' : Request} {ps' : List (String × String)}, ofBytes bs' = .ok r' →
      Query.Spells ps' (Head.queryBytes bs') → r.method = r'.method → r.host = r'.host →
      r.path = r'.path → (∀ p, p ∈ ps ↔ p ∈ ps') → Key.ofRequest r = Key.ofRequest r' := by
  refine ⟨query_eq_of_spells hr hps, ?_⟩
  intro bs' r' ps' hr' hps' hmethod hhost hpath hsame
  have hset : ∀ p, p ∈ r.query ↔ p ∈ r'.query := by
    rw [query_eq_of_spells hr hps, query_eq_of_spells hr' hps']
    exact hsame
  rw [Key.ofRequest, Key.ofRequest, hmethod, hhost, hpath, Key.derive_congr hset]

/-- Parameters in another order, one of them twice, a space and a letter of two bytes in two
spellings each, a value that is empty, and empty segments. -/
theorem key_of_spelling_variants :
    let bs := Utf8.encode "GET /s?q=a+b&t=%C3%A9&f HTTP/1.1\r\nHost: h:80\r\n\r\n".toList
    let bs' := Utf8.encode "\r\nget /s?&f=&t=é&&q=a%20b&t=%c3%a9 HTTP/1.0\nhost: h:80\n\n".toList
    let r : Request :=
      { host := "h:80", path := "/s", query := [("q", "a b"), ("t", "é"), ("f", "")],
        headers := ⟨[("Host", "h:80")]⟩ }
    let r' : Request :=
      { host := "h:80", path := "/s", query := [("f", ""), ("t", "é"), ("q", "a b"), ("t", "é")]
        headers := ⟨[("host", "h:80")]⟩ }
    ofBytes bs = .ok r ∧ ofBytes bs' = .ok r' ∧ Query.Spells r.query (Head.queryBytes bs) ∧
      Query.Spells r'.query (Head.queryBytes bs') ∧ Key.ofRequest r = Key.ofRequest r' := by
  intro bs bs' r r'
  have hr : ofBytes bs = .ok r := ofBytes_eq_ok (by decide +kernel)
  have hr' : ofBytes bs' = .ok r' := ofBytes_eq_ok (by decide +kernel)
  have text : ∀ {s : String} {bs ws : Bytes}, Utf8.encode s.toList = bs → Query.Writes bs ws →
      Query.Writes (Utf8.encode s.toList) ws := fun h hw => h ▸ hw
  have hq : Query.Writes (Utf8.encode "q".toList) [0x71] :=
    text (by decide) (.literals (by simp [Query.signs]))
  have ht : Query.Writes (Utf8.encode "t".toList) [0x74] :=
    text (by decide) (.literals (by simp [Query.signs]))
  have hf : Query.Writes (Utf8.encode "f".toList) [0x66] :=
    text (by decide) (.literals (by simp [Query.signs]))
  have hb : Query.Writes [0x62] [0x62] := .literals (by simp [Query.signs])
  have hletter : Utf8.encode "é".toList = [0xc3, 0xa9] := by decide
  have hspace : Utf8.encode "a b".toList = [0x61, 0x20, 0x62] := by decide
  have hps : Query.Spells r.query (Head.queryBytes bs) := by
    refine ⟨[[0x71, 0x3d, 0x61, 0x2b, 0x62], [0x74, 0x3d, 0x25, 0x43, 0x33, 0x25, 0x41, 0x39],
      [0x66]], ?_, by decide +kernel⟩
    have hplus : Query.Writes (Utf8.encode "a b".toList) [0x61, 0x2b, 0x62] :=
      text hspace (.literal (by decide) (.plus hb))
    have hupper : Query.Writes (Utf8.encode "é".toList) [0x25, 0x43, 0x33, 0x25, 0x41, 0x39] :=
      text hletter (.escape rfl rfl (.escape rfl rfl .nil))
    exact .cons (.assignment hq hplus)
      (.cons (.assignment ht hupper) (.cons (.name (by decide) hf) .nil))
  have hps' : Query.Spells r'.query (Head.queryBytes bs') := by
    refine ⟨[[], [0x66, 0x3d], [0x74, 0x3d, 0xc3, 0xa9], [],
      [0x71, 0x3d, 0x61, 0x25, 0x32, 0x30, 0x62], [0x74, 0x3d, 0x25, 0x63, 0x33, 0x25, 0x61, 0x39]],
      ?_, by decide +kernel⟩
    have hescape : Query.Writes (Utf8.encode "a b".toList) [0x61, 0x25, 0x32, 0x30, 0x62] :=
      text hspace (.literal (by decide) (.escape rfl rfl hb))
    have hliteral : Query.Writes (Utf8.encode "é".toList) [0xc3, 0xa9] :=
      text hletter (.literals (by simp [Query.signs]))
    have hlower : Query.Writes (Utf8.encode "é".toList) [0x25, 0x63, 0x33, 0x25, 0x61, 0x39] :=
      text hletter (.escape rfl rfl (.escape rfl rfl .nil))
    exact .empty (.cons (.assignment hf .nil) (.cons (.assignment ht hliteral) (.empty
      (.cons (.assignment hq hescape) (.cons (.assignment ht hlower) .nil)))))
  obtain ⟨-, hkey⟩ := key_of_spelling hr hps
  exact ⟨hr, hr', hps, hps', hkey hr' hps' rfl rfl rfl (by simp [r, r']; grind)⟩

end Request
end ResponseCache
