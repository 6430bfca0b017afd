import ResponseCache.Json.Printer
import ResponseCache.Json.Reader
import ResponseCache.Proofs.Numerals

/-!
# Documents read back

The compact text of a document is scanned into the tokens it was written from, and the reader builds
the same document from them. Every text survives, whatever characters it has.
-/
namespace ResponseCache

theorem Hex.digitValue_lowerDigit {n : Nat} (h : n < 16) :
    digitValue (lowerDigit n).toNat = some n := by
  have : ∀ n : Fin 16, digitValue (lowerDigit n.1).toNat = some n.1 := by decide
  exact this ⟨n, h⟩

namespace Json

/-- The piece that a character is read as: control characters without a letter come back as
units. -/
def pieceOf (c : Char) : Piece :=
  if c.toNat < 0x20 ∧ c.toNat ∉ [0x08, 0x09, 0x0a, 0x0c, 0x0d] then .unit c.toNat else .char c

theorem spell_pieces (cs : List Char) : spell (cs.map pieceOf) = some cs := by
  induction cs with
  | nil => rfl
  | cons c cs ih =>
    rw [List.map_cons]
    by_cases h : c.toNat < 0x20 ∧ c.toNat ∉ [0x08, 0x09, 0x0a, 0x0c, 0x0d]
    · have hunit : c.toNat < 0xd800 ∨ 0xe000 ≤ c.toNat := .inl (by omega)
      rw [pieceOf, if_pos h]
      unfold spell
      rw [if_pos hunit, ih, Char.ofNat_toNat]
      rfl
    · rw [pieceOf, if_neg h, spell, ih]
      rfl

private theorem hexUnit_control {n : Nat} (h : n < 0x20) :
    hexUnit (some '0') (some '0') (some (Hex.lowerDigit (n / 16)))
      (some (Hex.lowerDigit (n % 16))) = some n := by
  have hzero : Hex.digitValue '0'.toNat = some 0 := rfl
  have hhi := Hex.digitValue_lowerDigit (n := n / 16) (by omega)
  have hlo := Hex.digitValue_lowerDigit (n := n % 16) (by omega)
  have hn : ((0 * 16 + 0) * 16 + n / 16) * 16 + n % 16 = n := by omega
  simp only [hexUnit, Option.bind_eq_bind, Option.bind_some, hzero, hhi, hlo, hn]

/-- An escape is read as the character it stands for. -/
theorem scanText_escapeChar (c : Char) (done : List Piece) (rest : Input) :
    scanText done ((escapeChar c).map some ++ rest) = scanText (pieceOf c :: done) rest := by
  have hback : ∀ n, c.toNat = n → c = Char.ofNat n := fun n hn => hn ▸ (Char.ofNat_toNat c).symm
  rw [escapeChar]
  split
  · rename_i h
    subst h
    rfl
  · split
    · rename_i h
      subst h
      rfl
    · rename_i hslash
      split
      · rename_i hcontrol
        split
        iterate 5
          · rename_i h
            rw [hback _ h]
            rfl
        · rename_i h8 h9 ha hc hd
          have hpiece : pieceOf c = .unit c.toNat := by
            refine if_pos ⟨hcontrol, ?_⟩
            simpa using ⟨h8, h9, ha, hc, hd⟩
          rw [hpiece]
          simp only [List.map_cons, List.map_nil, List.cons_append, List.nil_append, scanText,
            hexUnit_control hcontrol, Option.bind_eq_bind, Option.bind_some]
      · rename_i hplain
        have hpiece : pieceOf c = .char c := if_neg fun h => hplain h.1
        rw [hpiece]
        simp [scanText, hslash, hplain]

theorem scanText_quoted (cs : List Char) (done : List Piece) (rest : List Char) :
    scanText done ((cs.flatMap escapeChar ++ '"' :: rest).map some) =
      some ((cs.map pieceOf).reverse ++ done, rest.map some) := by
  induction cs generalizing done with
  | nil => simp [scanText]
  | cons c cs ih =>
    rw [List.flatMap_cons, List.append_assoc, List.map_append, scanText_escapeChar, ih]
    simp

mutual
def tokensOf : Json String → List Token
  | .null => [.null]
  | .bool b => [.bool b]
  | .number n => [.number n]
  | .text s => [.text (some s)]
  | .array [] => [.openBracket, .closeBracket]
  | .array (j :: js) => .openBracket :: (j.tokensOf ++ itemTokens js ++ [.closeBracket])
  | .object [] => [.openBrace, .closeBrace]
  | .object ((name, j) :: ms) =>
    .openBrace :: .text (some name) :: .colon :: (j.tokensOf ++ memberTokens ms ++ [.closeBrace])

def itemTokens : List (Json String) → List Token
  | [] => []
  | j :: js => .comma :: (j.tokensOf ++ itemTokens js)

def memberTokens : List (String × Json String) → List Token
  | [] => []
  | (name, j) :: ms => .comma :: .text (some name) :: .colon :: (j.tokensOf ++ memberTokens ms)
end

mutual
def IsPrintable : Json String → Prop
  | .number n => n.IsPrintable
  | .array js => ItemsPrintable js
  | .object ms => MembersPrintable ms
  | _ => True

def ItemsPrintable : List (Json String) → Prop
  | [] => True
  | j :: js => j.IsPrintable ∧ ItemsPrintable js

def MembersPrintable : List (String × Json String) → Prop
  | [] => True
  | (_, j) :: ms => j.IsPrintable ∧ MembersPrintable ms
end

theorem tokensWithin_cons {c : Option Char} {i rest : Input} {t : Token}
    (hspace : isSpace c = false) (ht : scanToken (c :: i) = some (t, rest)) (bound : Nat) :
    tokensWithin (bound + 1) (c :: i) = (tokensWithin bound rest).map (t :: ·) := by
  have hdrop : (c :: i).dropWhile isSpace = c :: i := List.dropWhile_cons_of_neg (by simp [hspace])
  simp only [tokensWithin, hdrop, List.isEmpty_cons, Bool.false_eq_true, if_false, ht,
    Option.bind_eq_bind, Option.bind_some]
  cases tokensWithin bound rest <;> rfl

/-- A text is scanned into tokens before anything that does not go on with a number. -/
structure Scans (cs : List Char) (ts : List Token) : Prop where
  length_le : ts.length ≤ cs.length
  tokens : ∀ (bound : Nat) (rest : List Char), EndsNumeral rest →
    tokensWithin (ts.length + bound) ((cs ++ rest).map some) =
      (tokensWithin bound (rest.map some)).map (ts ++ ·)

theorem EndsNumeral.cons {c : Char} (h : c.isDigit = false ∧ c ≠ '.' ∧ c ≠ 'e' ∧ c ≠ 'E')
    (cs : List Char) : EndsNumeral (c :: cs) := by
  intro d hd
  cases hd
  exact h

/-- No other token starts like a number. -/
theorem scanToken_of_first {c : Char} (h : c = '-' ∨ c.isDigit = true) (i : Input) :
    scanToken (some c :: i) = (scanNumeral (some c :: i)).map fun (n, rest) =>
      (.number n, rest) := by
  have hne : ∀ d : Char, d ≠ '-' → d.isDigit = false → c ≠ d := by
    rintro d hd hdigit rfl
    rcases h with h | h
    · exact hd h
    · rw [h] at hdigit
      cases hdigit
  rw [scanToken.eq_def]
  split
  iterate 10
    rename_i h
    exact absurd (Option.some.inj (List.cons.inj h).1) (hne _ (by decide) (by decide))
  rfl

theorem not_isSpace_of_first {c : Char} (h : c = '-' ∨ c.isDigit = true) :
    isSpace (some c) = false := by
  rw [Bool.eq_false_iff]
  intro hs
  simp only [isSpace, Bool.or_eq_true, decide_eq_true_eq] at hs
  rcases hs with ((rfl | rfl) | rfl) | rfl <;> revert h <;> decide

namespace Scans
variable {cs cs' : List Char} {ts ts' : List Token}

theorem nil : Scans [] [] := by
  refine ⟨Nat.le_refl _, fun bound rest _ => ?_⟩
  show tokensWithin (0 + bound) _ = _
  simp

theorem append (h : Scans cs ts) (h' : Scans cs' ts')
    (hends : ∀ rest, EndsNumeral rest → EndsNumeral (cs' ++ rest)) :
    Scans (cs ++ cs') (ts ++ ts') := by
  constructor
  · rw [List.length_append, List.length_append]
    exact Nat.add_le_add h.length_le h'.length_le
  · intro bound rest hr
    rw [List.length_append, Nat.add_assoc, List.append_assoc, h.tokens _ _ (hends rest hr),
      h'.tokens _ _ hr]
    cases tokensWithin bound (rest.map some) <;> simp

/-- A token that ends where its text does. -/
theorem single {c : Char} {lead : List Char} {t : Token} (hspace : isSpace (some c) = false)
    (ht : ∀ rest, EndsNumeral rest →
      scanToken ((c :: lead ++ rest).map some) = some (t, rest.map some)) :
    Scans (c :: lead) [t] := by
  refine ⟨Nat.succ_le_succ (Nat.zero_le _), fun bound rest hr => ?_⟩
  rw [List.length_singleton, Nat.add_comm]
  exact tokensWithin_cons hspace (ht rest hr) bound

/-- A token in front that ends where its text does, whatever follows. -/
theorem cons {c : Char} (lead : List Char) {t : Token} (hspace : isSpace (some c) = false)
    (ht : ∀ rest : List Char, scanToken ((c :: lead ++ rest).map some) = some (t, rest.map some))
    (h : Scans cs ts) : Scans (c :: lead ++ cs) (t :: ts) := by
  constructor
  · have hlength := h.length_le
    simp only [List.length_cons, List.length_append]
    omega
  · intro bound rest hr
    have htoken := tokensWithin_cons hspace (ht (cs ++ rest)) (ts.length + bound)
    rw [h.tokens bound rest hr] at htoken
    rw [List.length_cons, Nat.add_right_comm, List.append_assoc]
    apply htoken.trans
    cases tokensWithin bound (rest.map some) <;> rfl

theorem punctuation {c : Char} {t : Token} (hspace : isSpace (some c) = false)
    (ht : ∀ rest, scanToken (some c :: rest) = some (t, rest)) (h : Scans cs ts) :
    Scans (c :: cs) (t :: ts) :=
  cons [] hspace (fun rest => ht (rest.map some)) h

theorem number {n : Numeral} (hn : n.IsPrintable) : Scans n.text [.number n] := by
  obtain ⟨c, cs, hc, hfirst⟩ := Numeral.exists_cons_of_text n
  have hscan : ∀ rest, EndsNumeral rest →
      scanNumeral ((n.text ++ rest).map some) = some (n, rest.map some) :=
    fun _ hr => scanNumeral_text hn hr
  rw [hc] at hscan ⊢
  refine single (not_isSpace_of_first hfirst) fun rest hr => ?_
  rw [List.cons_append, List.map_cons, scanToken_of_first hfirst]
  replace hscan := hscan rest hr
  rw [List.cons_append, List.map_cons] at hscan
  rw [hscan]
  rfl

theorem quoted (s : String) (h : Scans cs ts) :
    Scans (Json.quoted s ++ cs) (.text (some s) :: ts) := by
  refine cons _ rfl (fun rest => ?_) h
  have hscan := scanText_quoted s.toList [] rest
  show scanToken (some '"' :: ((s.toList.flatMap escapeChar ++ ['"']) ++ rest).map some) = _
  rw [List.append_assoc]
  simp only [scanToken, List.singleton_append, hscan, Option.bind_eq_bind, Option.bind_some,
    List.append_nil, List.reverse_reverse, spell_pieces, Option.map_some, String.ofList_toList]

end Scans

private theorem endsNumeral_items (js : List (Json String)) {rest : List Char}
    (hr : EndsNumeral rest) : EndsNumeral (compactItems js ++ rest) := by
  cases js with
  | nil => exact hr
  | cons j js => exact .cons (by decide) _

private theorem endsNumeral_members (ms : List (String × Json String)) {rest : List Char}
    (hr : EndsNumeral rest) : EndsNumeral (compactMembers ms ++ rest) := by
  cases ms with
  | nil => exact hr
  | cons m ms => exact .cons (by decide) _

mutual
theorem scans_compact : ∀ (j : Json String), j.IsPrintable → Scans j.compact j.tokensOf
  | .null, _ => .single rfl fun _ _ => rfl
  | .bool true, _ => .single rfl fun _ _ => rfl
  | .bool false, _ => .single rfl fun _ _ => rfl
  | .number _, h => .number h
  | .text s, _ => by
    have hquoted := Scans.quoted s .nil
    rwa [List.append_nil] at hquoted
  | .array [], _ => .punctuation rfl (fun _ => rfl) (.punctuation rfl (fun _ => rfl) .nil)
  | .array (j :: js), h => by
    have hclose : Scans [']'] [.closeBracket] := .punctuation rfl (fun _ => rfl) .nil
    have hitems := (scans_compact j h.1).append (scans_items js h.2) fun _ => endsNumeral_items js
    exact .punctuation rfl (fun _ => rfl) (hitems.append hclose fun _ _ => .cons (by decide) _)
  | .object [], _ => .punctuation rfl (fun _ => rfl) (.punctuation rfl (fun _ => rfl) .nil)
  | .object ((name, j) :: ms), h => by
    have hclose : Scans ['}'] [.closeBrace] := .punctuation rfl (fun _ => rfl) .nil
    have hmembers := (scans_compact j h.1).append (scans_members ms h.2) fun _ =>
      endsNumeral_members ms
    have htext : (Json.object ((name, j) :: ms)).compact =
      '{' :: (quoted name ++ ':' :: (j.compact ++ compactMembers ms ++ ['}'])) := by simp [compact]
    rw [htext]
    exact .punctuation rfl (fun _ => rfl) (.quoted name (.punctuation rfl (fun _ => rfl)
      (hmembers.append hclose fun _ _ => .cons (by decide) _)))

theorem scans_items :
    ∀ (js : List (Json String)), ItemsPrintable js → Scans (compactItems js) (itemTokens js)
  | [], _ => .nil
  | j :: js, h => by
    have hitems := (scans_compact j h.1).append (scans_items js h.2) fun _ => endsNumeral_items js
    exact .punctuation rfl (fun _ => rfl) hitems

theorem scans_members : ∀ (ms : List (String × Json String)), MembersPrintable ms →
    Scans (compactMembers ms) (memberTokens ms)
  | [], _ => .nil
  | (name, j) :: ms, h => by
    have hmembers := (scans_compact j h.1).append (scans_members ms h.2) fun _ =>
      endsNumeral_members ms
    have htext : compactMembers ((name, j) :: ms) =
      ',' :: (quoted name ++ ':' :: (j.compact ++ compactMembers ms)) := by simp [compactMembers]
    rw [htext]
    exact .punctuation rfl (fun _ => rfl) (.quoted name (.punctuation rfl (fun _ => rfl) hmembers))
end

theorem tokens_compact {j : Json String} (h : j.IsPrintable) :
    tokens (j.compact.map some) = some j.tokensOf := by
  have hscans := scans_compact j h
  have hlength := hscans.length_le
  have htokens := hscans.tokens (j.compact.length - j.tokensOf.length) [] nofun
  rw [Nat.add_sub_cancel' hlength, List.append_nil] at htokens
  rw [tokens, List.length_map, htokens]
  cases j.compact.length - j.tokensOf.length <;> simp [tokensWithin]

def Expect.IsStart : Expect → Prop
  | .value | .valueOrClose => True
  | _ => False

theorem read_cons {s s' : ReaderState} {t : Token} (h : s.take t = some s') (ts : List Token) :
    (t :: ts).foldlM ReaderState.take s = ts.foldlM ReaderState.take s' := by
  rw [List.foldlM_cons, h]
  rfl

/-- A token that can start a value does the same wherever one is expected. -/
theorem read_start {stack : List Open} {e : Expect} (h : e.IsStart) {t : Token} {s : ReaderState}
    (ht : ReaderState.takeValue ⟨stack, e⟩ t = some s) (ts : List Token) :
    (t :: ts).foldlM ReaderState.take ⟨stack, e⟩ = ts.foldlM ReaderState.take s := by
  refine read_cons ?_ ts
  cases e with
  | value => exact ht
  | valueOrClose =>
    cases t with
    | closeBracket => cases ht
    | _ => exact ht
  | _ => exact h.elim

mutual
theorem read_tokensOf :
    ∀ (j : Json String) (stack : List Open) (e : Expect) (rest : List Token), e.IsStart →
      (j.tokensOf ++ rest).foldlM ReaderState.take ⟨stack, e⟩ =
        rest.foldlM ReaderState.take ⟨stack, .after (j.map some)⟩
  | .null, _, _, rest, h => read_start h rfl rest
  | .bool _, _, _, rest, h => read_start h rfl rest
  | .number _, _, _, rest, h => read_start h rfl rest
  | .text _, _, _, rest, h => read_start h rfl rest
  | .array [], _, _, rest, h => (read_start h rfl _).trans (read_cons rfl rest)
  | .array (j :: js), stack, _, rest, h => by
    have hfirst := read_tokensOf j (.array [] :: stack) .valueOrClose
      (itemTokens js ++ .closeBracket :: rest) trivial
    have hitems := read_itemTokens js stack [] (j.map some) rest
    have htokens : (Json.array (j :: js)).tokensOf ++ rest =
      .openBracket :: (j.tokensOf ++ (itemTokens js ++ .closeBracket :: rest)) := by simp [tokensOf]
    rw [htokens, read_start h rfl, hfirst, hitems]
    rfl
  | .object [], _, _, rest, h => (read_start h rfl _).trans (read_cons rfl rest)
  | .object ((name, j) :: ms), stack, _, rest, h => by
    have hfirst := read_tokensOf j (.object [] (some name) :: stack) .value
      (memberTokens ms ++ .closeBrace :: rest) trivial
    have hmembers := read_memberTokens ms stack [] (some name) (j.map some) rest
    have htokens : (Json.object ((name, j) :: ms)).tokensOf ++ rest =
      .openBrace :: .text (some name) :: .colon ::
        (j.tokensOf ++ (memberTokens ms ++ .closeBrace :: rest)) := by
      simp [tokensOf]
    rw [htokens, read_start h rfl, read_cons rfl, read_cons rfl, hfirst, hmembers]
    rfl

/-- The items after the first one, up to the end of their array. -/
theorem read_itemTokens :
    ∀ (js : List (Json String)) (stack : List Open) (done : List Document) (last : Document)
      (rest : List Token),
      (itemTokens js ++ .closeBracket :: rest).foldlM ReaderState.take
          ⟨.array done :: stack, .after last⟩ =
        rest.foldlM ReaderState.take
          ⟨stack, .after (.array ((last :: done).reverse ++ mapItems some js))⟩
  | [], _, _, _, rest => by
    rw [mapItems, List.append_nil]
    exact read_cons rfl rest
  | j :: js, stack, done, last, rest => by
    have hfirst := read_tokensOf j (.array (last :: done) :: stack) .value
      (itemTokens js ++ .closeBracket :: rest) trivial
    have hitems := read_itemTokens js stack (last :: done) (j.map some) rest
    rw [itemTokens, List.cons_append, List.append_assoc, read_cons rfl, hfirst, hitems, mapItems,
      List.reverse_cons, List.append_assoc]
    rfl

/-- The members after the first one, up to the end of their object. -/
theorem read_memberTokens : ∀ (ms : List (String × Json String)) (stack : List Open)
    (done : List (Option String × Document)) (name : Option String) (last : Document)
    (rest : List Token),
    (memberTokens ms ++ .closeBrace :: rest).foldlM ReaderState.take
        ⟨.object done name :: stack, .after last⟩ =
      rest.foldlM ReaderState.take
        ⟨stack, .after (.object (((name, last) :: done).reverse ++ mapMembers some ms))⟩
  | [], _, _, _, _, rest => by
    rw [mapMembers, List.append_nil]
    exact read_cons rfl rest
  | (name', j) :: ms, stack, done, name, last, rest => by
    have hfirst := read_tokensOf j (.object ((name, last) :: done) (some name') :: stack) .value
      (memberTokens ms ++ .closeBrace :: rest) trivial
    have hmembers :=
      read_memberTokens ms stack ((name, last) :: done) (some name') (j.map some) rest
    rw [memberTokens, List.cons_append, List.cons_append, List.cons_append, List.append_assoc,
      read_cons rfl, read_cons rfl, read_cons rfl, hfirst, hmembers, mapMembers, List.reverse_cons,
      List.append_assoc]
    rfl
end

theorem ofTokens?_tokensOf (j : Json String) : ofTokens? j.tokensOf = some (j.map some) := by
  have hread := read_tokensOf j [] .value [] trivial
  rw [List.append_nil] at hread
  simp only [ofTokens?, hread]
  rfl

/-- The bytes of a document's compact text are read as the document. -/
theorem ofBytes?_encode_compact {j : Json String} (h : j.IsPrintable) :
    ofBytes? (Utf8.encode j.compact) = some (j.map some) := by
  rw [ofBytes?, Utf8.characters_encode, read?, tokens_compact h]
  exact ofTokens?_tokensOf j

end Json
end ResponseCache
