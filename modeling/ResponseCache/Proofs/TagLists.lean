import ResponseCache.Proofs.Fields
import ResponseCache.Proofs.Lookups

/-!
# Lists of tags

A list of tags stands for all that its members stand for, one by one. So commas, blanks and further
fields only ever add tags, and the weak mark of a quoted tag can be left out wherever it stands.
-/
namespace ResponseCache

namespace EntityTag

/-- Blanks around a candidate do not count. -/
theorem candidateMatches_congr {c c' : List Char} (h : Text.trim c = Text.trim c')
    (current : List Char) : candidateMatches current c = candidateMatches current c' := by
  rw [candidateMatches, candidateMatches, bare, bare, h]

theorem isBlank_quote : Text.isBlank '"' = false := by decide

theorem trim_quote (cs : List Char) : Text.trim ('"' :: cs) = '"' :: Text.trimEnd cs :=
  Text.trim_append_cons (a := []) (by simp) isBlank_quote cs

theorem trim_weak_quote (cs : List Char) :
    Text.trim ('W' :: '/' :: '"' :: cs) = 'W' :: '/' :: '"' :: Text.trimEnd cs := by
  have hletter : Text.isBlank 'W' = false := by decide
  have hslash : Text.isBlank '/' = false := by decide
  have hmark : ∀ c ∈ ['W', '/'], Text.isBlank c = false := by simp [hletter, hslash]
  exact Text.trim_append_cons hmark isBlank_quote cs

theorem bare_quote (cs : List Char) : bare ('"' :: cs) = '"' :: Text.trimEnd cs := by
  rw [bare, trim_quote]
  rfl

/-- The weak mark of a quoted tag does not count. -/
theorem bare_weak_quote (cs : List Char) :
    bare ('W' :: '/' :: '"' :: cs) = '"' :: Text.trimEnd cs := by
  have hstrip : Text.stripLead ['W', '/'] ('W' :: '/' :: '"' :: Text.trimEnd cs) =
      some ('"' :: Text.trimEnd cs) :=
    Text.stripLead_append ['W', '/'] _
  rw [bare, trim_weak_quote, hstrip, Option.getD_some]

theorem candidateMatches_weak_quote (current cs : List Char) :
    candidateMatches current ('W' :: '/' :: '"' :: cs) = candidateMatches current ('"' :: cs) := by
  rw [candidateMatches, candidateMatches, bare_weak_quote, bare_quote, trim_weak_quote, trim_quote]
  rfl

def anyMatches (current list : List Char) : Bool :=
  (list.splitOn ',').any (candidateMatches current)

theorem matchesList_eq (list tag : String) :
    matchesList list tag = anyMatches (bare tag.toList) list.toList := rfl

theorem anyMatches_comma (current a b : List Char) :
    anyMatches current (a ++ ',' :: b) = (anyMatches current a || anyMatches current b) := by
  rw [anyMatches, List.splitOn_append_cons_self, List.any_append]
  rfl

/-- What goes in front of a list without a comma changes it at most by its first candidate. -/
theorem anyMatches_append_congr {current a f b : List Char} (ha : ',' ∉ a) (hf : ',' ∉ f)
    (h : ∀ part, candidateMatches current (a ++ part) = candidateMatches current (f ++ part)) :
    anyMatches current (a ++ b) = anyMatches current (f ++ b) := by
  rw [anyMatches, anyMatches, Text.splitOn_append_of_not_mem ha, Text.splitOn_append_of_not_mem hf]
  cases b.splitOn ',' with
  | nil => rfl
  | cons part parts =>
    rw [List.modifyHead_cons, List.modifyHead_cons, List.any_cons, List.any_cons, h]

theorem anyMatches_blanks {blanks : List Char} (h : ∀ c ∈ blanks, Text.isBlank c = true)
    (current list : List Char) : anyMatches current (blanks ++ list) = anyMatches current list := by
  have hcomma : ',' ∉ blanks := fun hmem => absurd (h ',' hmem) (by decide)
  exact anyMatches_append_congr (f := []) hcomma List.not_mem_nil
    fun part => candidateMatches_congr (Text.trim_blanks_append h part) current

theorem anyMatches_weak_quote (current list : List Char) :
    anyMatches current ('W' :: '/' :: '"' :: list) = anyMatches current ('"' :: list) :=
  anyMatches_append_congr (a := ['W', '/', '"']) (f := ['"']) (by decide) (by decide)
    fun part => candidateMatches_weak_quote current part

theorem matchesList_comma (a b tag : String) :
    matchesList (a ++ "," ++ b) tag = (matchesList a tag || matchesList b tag) := by
  have hlist : (a ++ "," ++ b).toList = a.toList ++ ',' :: b.toList := by simp
  rw [matchesList_eq, hlist, anyMatches_comma, ← matchesList_eq, ← matchesList_eq]

theorem matchesList_blanks {blanks : String} (h : ∀ c ∈ blanks.toList, Text.isBlank c = true)
    (list tag : String) : matchesList (blanks ++ list) tag = matchesList list tag := by
  rw [matchesList_eq, String.toList_append, anyMatches_blanks h, ← matchesList_eq]

/-- Members around commas, with blanks after the commas. -/
theorem matchesList_intercalate {blanks : String} (h : ∀ c ∈ blanks.toList, Text.isBlank c = true)
    (member : String) (members : List String) (tag : String) :
    matchesList (("," ++ blanks).intercalate (member :: members)) tag =
      (member :: members).any (matchesList · tag) := by
  induction members generalizing member with
  | nil => simp
  | cons next members ih =>
    have hseam : ∀ rest, member ++ ("," ++ blanks) ++ rest = member ++ "," ++ (blanks ++ rest) := by
      intro rest
      simp only [String.append_assoc]
    rw [String.intercalate_cons_cons, hseam, matchesList_comma, matchesList_blanks h, ih]
    rfl

theorem matchesList_members (before : List String) (member : String) (after : List String)
    (tag : String) :
    matchesList (",".intercalate (before ++ member :: after)) tag =
      (before.any (matchesList · tag) ||
        (matchesList member tag || after.any (matchesList · tag))) := by
  have hblank : ∀ c ∈ "".toList, Text.isBlank c = true := fun c hc => absurd hc List.not_mem_nil
  cases before with
  | nil => exact matchesList_intercalate hblank member after tag
  | cons first before =>
    have hall := matchesList_intercalate hblank first (before ++ member :: after) tag
    rwa [← List.cons_append, List.any_append, List.any_cons (a := member)] at hall

/-- The weak mark does not count in the current tag. -/
theorem matchesList_weak {tag : String} (h : tag.toList.head? = some '"') (list : String) :
    matchesList list ("W/" ++ tag) = matchesList list tag := by
  obtain ⟨cs, hcs⟩ := List.head?_eq_some_iff.mp h
  have hweak : ("W/" ++ tag).toList = 'W' :: '/' :: '"' :: cs := by simp [hcs]
  rw [matchesList_eq, matchesList_eq, hweak, hcs, bare_weak_quote, bare_quote]

/-- Nor does it in a member. -/
theorem matchesList_weak_member {tag : String} (h : tag.toList.head? = some '"')
    (current : String) : matchesList ("W/" ++ tag) current = matchesList tag current := by
  obtain ⟨cs, hcs⟩ := List.head?_eq_some_iff.mp h
  have hweak : ("W/" ++ tag).toList = 'W' :: '/' :: '"' :: cs := by simp [hcs]
  rw [matchesList_eq, matchesList_eq, hweak, hcs, anyMatches_weak_quote]

/-- Fields of one name are one list. -/
theorem any_joined? (h : Headers) (name tag : String) :
    (h.joined? name).any (matchesList · tag) = (h.getAll name).any (matchesList · tag) := by
  rw [Headers.joined?]
  cases h.getAll name with
  | nil => rfl
  | cons value values =>
    have hblank : ∀ c ∈ " ".toList, Text.isBlank c = true := by
      intro c hc
      rw [List.mem_singleton.mp hc]
      rfl
    exact matchesList_intercalate hblank value values tag

end EntityTag

namespace Engine
variable {σ : Type} {e : Engine σ} {r r' : Request} {route : Declaration} {w : World σ}
  {entry : Entry}

/-- A lookup for the request is to be answered from the entry. -/
structure Offers (e : Engine σ) (r : Request) (route : Declaration) (w : World σ) (entry : Entry) :
    Prop where
  cacheable : r.method ∈ e.methods
  lookedUp : route.bypassesLookup = false
  found : e.lookup r w = some entry
  servable : entry.isServable w.now = true

theorem Offers.congr (h : e.Offers r route w entry) (hmethod : r'.method = r.method)
    (hlookup : e.lookup r' w = e.lookup r w) : e.Offers r' route w entry where
  cacheable := hmethod ▸ h.cacheable
  lookedUp := h.lookedUp
  found := hlookup.trans h.found
  servable := h.servable

theorem Offers.decide_eq (h : e.Offers r route w entry) :
    (e.decide r route w).1 = .ofEntry (e.keyOf r) entry r.ifNoneMatch? w.now := by
  have hmethod : e.methods.contains r.method = true := List.contains_iff_mem.mpr h.cacheable
  rw [Engine.decide_eq, decisionOn, hmethod, h.lookedUp, h.found]
  rfl

/-- The tags of the request decide in which form the entry goes out. -/
theorem Offers.outcome (h : e.Offers r route w entry) :
    (e.decide r route w).1.outcome =
      if (r.headers.getAll "if-none-match").any (EntityTag.matchesList · entry.etag) then
        .notModified
      else .serveCached := by
  rw [h.decide_eq, Decision.outcome_of_isServable h.servable, Request.ifNoneMatch?,
    EntityTag.any_joined?]

/-- Without an entry to offer the request goes to the handler. -/
theorem exists_offers_of_not_needsHandler (h : (e.decide r route w).1.needsHandler = false) :
    ∃ entry, e.Offers r route w entry := by
  rw [Engine.decide_eq, decisionOn] at h
  split at h
  · cases h
  · rename_i hmethod
    split at h
    · cases h
    · rename_i hroute
      rw [Bool.not_eq_true', Bool.not_eq_false, List.contains_iff_mem] at hmethod
      cases hfound : e.lookup r w with
      | none =>
        rw [hfound] at h
        cases h
      | some entry =>
        refine ⟨entry, hmethod, Bool.not_eq_true _ ▸ hroute, hfound, ?_⟩
        apply Decidable.byContradiction
        intro hservable
        rw [hfound, decisionFor, Decision.needsHandler,
          Decision.outcome_of_not_isServable hservable] at h
        cases h

theorem notModified_iff :
    (e.decide r route w).1.outcome = .notModified ↔ ∃ entry, e.Offers r route w entry ∧
      (r.headers.getAll "if-none-match").any (EntityTag.matchesList · entry.etag) = true := by
  constructor
  · intro h
    have hcached : (e.decide r route w).1.needsHandler = false := by rw [Decision.needsHandler, h]
    obtain ⟨entry, hoffers⟩ := exists_offers_of_not_needsHandler hcached
    refine ⟨entry, hoffers, ?_⟩
    apply Decidable.byContradiction
    intro hunknown
    rw [hoffers.outcome, if_neg hunknown] at h
    cases h
  · rintro ⟨entry, hoffers, hknown⟩
    rw [hoffers.outcome, if_pos hknown]

end Engine

/-- The request with one If-None-Match field in the place of all it has. -/
def Request.presenting (r : Request) (field : String × String) : Request :=
  { r with headers := (r.headers.erase "if-none-match").insert field.1 field.2 }

theorem Request.getAll_presenting {r : Request} {field : String × String}
    (h : field ∈ r.headers.under "if-none-match") :
    (r.presenting field).headers.getAll "if-none-match" = [field.2] := by
  have hname : Text.sameName field.1 "if-none-match" = true := (List.mem_filter.mp h).2
  rw [Headers.getAll_eq_map, presenting, Headers.under_insert, Headers.under_erase, hname]
  rfl

/-- A comma means or, whatever is around it. The weak mark of a quoted text does not count, in the
current tag or in a member of the list. And of several If-None-Match fields any one makes a 304 of
an entry that may be served, and no fields make one together that none of them makes alone, whatever
builds the keys as long as it leads each of the requests to the same entry. -/
theorem EntityTag.lists_are_disjunctions {σ : Type} {e : Engine σ} {r : Request}
    (route : Declaration) {w : World σ}
    (hlookup : ∀ field ∈ r.headers.under "if-none-match",
      e.lookup (r.presenting field) w = e.lookup r w) :
    (∀ a b tag : String,
        matchesList (a ++ "," ++ b) tag = (matchesList a tag || matchesList b tag)) ∧
      (∀ t : String, t.toList.head? = some '"' →
        (∀ list, matchesList list ("W/" ++ t) = matchesList list t) ∧
        ∀ (before after : List String) (blanks tag : String),
          (∀ c ∈ blanks.toList, Text.isBlank c = true) →
          matchesList (",".intercalate (before ++ (blanks ++ ("W/" ++ t)) :: after)) tag =
            matchesList (",".intercalate (before ++ (blanks ++ t) :: after)) tag) ∧
      ((e.decide r route w).1.outcome = .notModified ↔
        ∃ field ∈ r.headers.under "if-none-match",
          (e.decide (r.presenting field) route w).1.outcome = .notModified) := by
  refine ⟨matchesList_comma, ?_, ?_⟩
  · intro t ht
    refine ⟨matchesList_weak ht, ?_⟩
    intro before after blanks tag hblanks
    have hmember : matchesList (blanks ++ ("W/" ++ t)) tag = matchesList (blanks ++ t) tag := by
      rw [matchesList_blanks hblanks, matchesList_blanks hblanks, matchesList_weak_member ht]
    rw [matchesList_members, matchesList_members, hmember]
  · rw [Engine.notModified_iff]
    constructor
    · rintro ⟨entry, hoffers, hany⟩
      rw [Headers.getAll_eq_map, List.any_map, List.any_eq_true] at hany
      obtain ⟨field, hfield, hmatches⟩ := hany
      refine ⟨field, hfield,
        Engine.notModified_iff.mpr ⟨entry, hoffers.congr rfl (hlookup field hfield), ?_⟩⟩
      rw [Request.getAll_presenting hfield, List.any_cons]
      exact Bool.or_eq_true_iff.mpr (.inl hmatches)
    · rintro ⟨field, hfield, hnotModified⟩
      obtain ⟨entry, hoffers, hany⟩ := Engine.notModified_iff.mp hnotModified
      refine ⟨entry, hoffers.congr rfl (hlookup field hfield).symm, ?_⟩
      rw [Request.getAll_presenting hfield, List.any_cons, List.any_nil, Bool.or_false] at hany
      exact List.any_eq_true.mpr ⟨field.2, List.mem_map_of_mem hfield, hany⟩

/-- Of three fields, an empty one and one with other tags among them, the last alone has the tag of
the entry, and there a weak mark in front of it. A tag in quotes with a comma in it is two members,
marked or not. -/
theorem EntityTag.lists_are_disjunctions_three_fields :
    let e : Engine Memory := { backend := Memory.backend .default }
    let r : Request :=
      { host := "localhost", path := "/a",
        headers :=
          ⟨[("IF-NONE-MATCH", ""), ("Accept", "*"), ("if-none-match", " , \"v0\""),
            ("If-None-Match", "\"v2\", \tW/\"v1\" ,")]⟩ }
    let response : Response :=
      { headers := ⟨[("Cache-Control", "max-age=60"), ("ETag", "\"v1\"")]⟩ }
    let stored := (e.commit (e.keyOf r) response none ⟨⟨0⟩, {}⟩).2
    (∀ field ∈ r.headers.under "if-none-match",
      e.lookup (r.presenting field) stored = e.lookup r stored) ∧
      (e.decide r {} stored).1.outcome = .notModified ∧
      (∃ field ∈ r.headers.under "if-none-match",
        (e.decide (r.presenting field) {} stored).1.outcome = .notModified) ∧
      matchesList "\"x\",  W/\"a,*,b\"" "\"v1\"" = true := by
  intro e r response stored
  have hlookup : ∀ field ∈ r.headers.under "if-none-match",
      e.lookup (r.presenting field) stored = e.lookup r stored :=
    fun _ _ => rfl
  obtain ⟨-, hweak, hfields⟩ := lists_are_disjunctions {} hlookup
  have hdecision : (e.decide r {} stored).1.outcome = .notModified := by decide +kernel
  refine ⟨hlookup, hdecision, hfields.mp hdecision, ?_⟩
  have hblanks : ∀ c ∈ "  ".toList, Text.isBlank c = true := by simp [Text.isBlank]
  exact ((hweak "\"a,*,b\"" rfl).2 ["\"x\""] [] "  " "\"v1\"" hblanks).trans (by decide)

end ResponseCache
