import ResponseCache.KeyValue.Backend
import ResponseCache.Proofs.Keys

/-!
# What wildcard patterns find

An escaped text in a pattern stands for itself and a star for any characters, so the patterns that
the store is scanned with find every key of a namespace, and every derived key with a path.
-/
namespace ResponseCache

namespace Key

/-- The path stands in the text as derived keys have it: after two triple bars and before a
third. -/
def Spells (k : Key) (path : String) : Prop :=
  ∃ before between after, k.text.toList =
    before ++ (bars ++ (between ++ (bars ++ (encodePart path ++ (bars ++ after)))))

theorem spells_derive (method : Method) (host path : String) (query : List (String × String)) :
    (derive method host path query).Spells path :=
  ⟨encodePart method.text, encodePart host, encodeQuery query, by simp [derive]⟩

end Key

namespace Wildcard

def Accepts (ts : List Token) (cs : List Char) : Prop :=
  Pattern.accepts (ts.map Token.step) cs = true

theorem isMatch_iff {pattern text : String} :
    isMatch pattern text = true ↔ Accepts (read pattern) text.toList := by
  rw [isMatch, Pattern.isMatch_eq_accepts]
  rfl

theorem accepts_literal_iff {c : Char} {ts : List Token} {text : List Char} :
    Accepts (.literal c :: ts) text ↔ ∃ rest, text = c :: rest ∧ Accepts ts rest :=
  Pattern.accepts_same_iff

theorem accepts_anyChar_iff {ts : List Token} {text : List Char} :
    Accepts (.anyChar :: ts) text ↔ ∃ c rest, text = c :: rest ∧ Accepts ts rest := by
  rw [Accepts, List.map_cons, Token.step, Pattern.accepts_one_iff]
  simp [Accepts]

theorem accepts_set_iff {negated : Bool} {ranges : CharSet} {ts : List Token} {text : List Char} :
    Accepts (.set negated ranges :: ts) text ↔
      ∃ c rest, text = c :: rest ∧ (ranges.has c != negated) = true ∧ Accepts ts rest :=
  Pattern.accepts_one_iff

theorem accepts_literals_iff {cs text : List Char} {ts : List Token} :
    Accepts (cs.map Token.literal ++ ts) text ↔ ∃ rest, text = cs ++ rest ∧ Accepts ts rest := by
  induction cs generalizing text with
  | nil => simp
  | cons c cs ih =>
    rw [List.map_cons, List.cons_append, accepts_literal_iff]
    constructor
    · rintro ⟨tail, rfl, htail⟩
      obtain ⟨rest, rfl, hrest⟩ := ih.mp htail
      exact ⟨rest, rfl, hrest⟩
    · rintro ⟨rest, rfl, hrest⟩
      exact ⟨cs ++ rest, rfl, ih.mpr ⟨rest, rfl, hrest⟩⟩

theorem accepts_anyRun_iff {ts : List Token} {text : List Char} :
    Accepts (.anyRun :: ts) text ↔ ∃ cs rest, text = cs ++ rest ∧ Accepts ts rest :=
  Pattern.accepts_anyRun_iff

theorem accepts_star (text : List Char) : Accepts [.anyRun] text :=
  accepts_anyRun_iff.mpr ⟨text, [], (List.append_nil text).symm, rfl⟩

theorem readFrom_same {c : Char} {cs : List Char} (hc : c ∉ ['*', '?', '['])
    (hslash : c = '\\' → cs = []) : readFrom none (c :: cs) = .literal c :: readFrom none cs := by
  obtain ⟨hstar, hmark, hopen⟩ : ¬c = '*' ∧ ¬c = '?' ∧ ¬c = '[' := by simpa using hc
  rw [readFrom]
  · exact hstar
  · exact hmark
  · rintro rest rfl
    exact absurd rfl hopen
  · exact hopen
  · rintro d rest rfl rfl
    cases hslash rfl

theorem readFrom_of_not_isSpecial {c : Char} (h : isSpecial c = false) (cs : List Char) :
    readFrom none (c :: cs) = .literal c :: readFrom none cs := by
  obtain ⟨hstar, hmark, hopen, -, hslash⟩ : ¬c = '*' ∧ ¬c = '?' ∧ ¬c = '[' ∧ ¬c = ']' ∧
      ¬c = '\\' := by
    simpa [isSpecial, and_assoc] using h
  exact readFrom_same (by simp [hstar, hmark, hopen]) fun heq => absurd heq hslash

theorem readFrom_bars (cs : List Char) :
    readFrom none (Key.bars ++ cs) = Key.bars.map Token.literal ++ readFrom none cs := by
  have hbar := readFrom_of_not_isSpecial (c := '|') (by decide)
  show readFrom none ('|' :: '|' :: '|' :: cs) = _
  rw [hbar, hbar, hbar]
  rfl

theorem readFrom_star (cs : List Char) :
    readFrom none ('*' :: cs) = .anyRun :: readFrom none cs := by
  rw [readFrom]

theorem readFrom_escape (s : String) (rest : List Char) :
    readFrom none ((escape s).toList ++ rest) =
      s.toList.map Token.literal ++ readFrom none rest := by
  rw [escape, String.toList_ofList]
  induction s.toList with
  | nil => rfl
  | cons c cs ih =>
    rw [List.flatMap_cons, List.append_assoc, List.map_cons, List.cons_append, ← ih]
    cases h : isSpecial c with
    | true =>
      rw [if_pos rfl, List.cons_append, List.singleton_append, readFrom]
    | false => exact readFrom_of_not_isSpecial h _

/-- A pattern behind the text of a namespace goes by the keys of the namespace. -/
theorem isMatch_storePattern_iff {c : KeyValue.Scope} {relative : String} {k : Key} :
    isMatch (c.storePattern relative) (c.space.physical k) = true ↔
      isMatch relative k.text = true := by
  have hread : read (c.storePattern relative) =
      c.space.lead.toList.map Token.literal ++ read relative := by
    rw [read, KeyValue.Scope.storePattern, String.toList_append, readFrom_escape]
    rfl
  rw [isMatch_iff, isMatch_iff, hread, Namespace.physical, String.toList_append,
    accepts_literals_iff]
  simp

/-- A namespace and a star find every key of the namespace. -/
theorem isMatch_storePattern_star (c : KeyValue.Scope) (k : Key) :
    isMatch (c.storePattern "*") (c.space.physical k) = true :=
  isMatch_storePattern_iff.mpr (isMatch_iff.mpr (accepts_star _))

/-- The pattern for a path finds the keys that spell it, and no others. -/
theorem isMatch_storePattern_path_iff {c : KeyValue.Scope} {path : String} {k : Key} :
    isMatch (c.storePattern (KeyValue.pathPattern path)) (c.space.physical k) = true ↔
      k.Spells path := by
  have hread : read (KeyValue.pathPattern path) =
      .anyRun :: (Key.bars.map Token.literal ++ .anyRun :: (Key.bars.map Token.literal ++
        ((Key.encodePart path).map Token.literal ++
          (Key.bars.map Token.literal ++ [.anyRun])))) := by
    have hpattern : (KeyValue.pathPattern path).toList = '*' :: (Key.bars ++ '*' :: (Key.bars ++
        ((escape (String.ofList (Key.encodePart path))).toList ++ (Key.bars ++ ['*'])))) := by
      simp [KeyValue.pathPattern, Key.bars]
    rw [read, hpattern, readFrom_star, readFrom_bars, readFrom_star, readFrom_bars, readFrom_escape,
      readFrom_bars, String.toList_ofList]
    rfl
  rw [isMatch_storePattern_iff, isMatch_iff, hread]
  simp only [accepts_literals_iff, accepts_anyRun_iff]
  constructor
  · rintro ⟨before, _, htext, _, rfl, between, _, rfl, _, rfl, _, rfl, _, rfl, after, rest, rfl, -⟩
    exact ⟨before, between, after ++ rest, htext⟩
  · rintro ⟨before, between, after, htext⟩
    exact ⟨before, _, htext, _, rfl, between, _, rfl, _, rfl, _, rfl, _, rfl, after, [],
      (List.append_nil after).symm, rfl⟩

/-- The pattern for a path finds every derived key with that path. -/
theorem isMatch_storePattern_path (c : KeyValue.Scope) (method : Method) (host path : String)
    (query : List (String × String)) :
    isMatch (c.storePattern (KeyValue.pathPattern path))
      (c.space.physical (.derive method host path query)) = true :=
  isMatch_storePattern_path_iff.mpr (Key.spells_derive method host path query)

end Wildcard
end ResponseCache
