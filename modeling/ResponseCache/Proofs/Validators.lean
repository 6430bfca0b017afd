import ResponseCache.Proofs.Replays
import ResponseCache.Proofs.TagLists

/-!
# Stored tags sent back

A client that sends back the tag of a stored response has that response. Lists of tags are cut at
every comma, those inside quotes too, so a tag with a comma in it is never found in a list.
-/
namespace ResponseCache

namespace EntityTag

def IsTagText (text : List Char) : Prop := ∀ c ∈ text, c ≠ '"' ∧ 0x20 < c.toNat ∧ c.toNat ≠ 0x7f

/-- A text in double quotes without double quotes, control characters and spaces in it, with a weak
mark or without. -/
inductive IsWellFormed : String → Prop
  | strong {text : List Char} : IsTagText text →
    IsWellFormed (String.ofList ('"' :: (text ++ ['"'])))
  | weak {text : List Char} : IsTagText text →
    IsWellFormed (String.ofList ('W' :: '/' :: '"' :: (text ++ ['"'])))

/-- The tag is a member of the list, alone or among others, with blanks around it or none. -/
def IsMember (tag list : String) : Prop :=
  ∃ (before after : List String) (lead trail : String), (∀ c ∈ lead.toList, Text.isBlank c = true) ∧
    (∀ c ∈ trail.toList, Text.isBlank c = true) ∧
    list = ",".intercalate (before ++ (lead ++ (tag ++ trail)) :: after)

def HasStar (list : String) : Prop := ∃ part ∈ list.toList.splitOn ',', Text.trim part = ['*']

instance (list : String) : Decidable (HasStar list) := List.decidableBEx _ _

/-- Commas are never cut off. -/
theorem comma_mem_bare_iff {cs : List Char} : ',' ∈ bare cs ↔ ',' ∈ cs := by
  have htrim : ',' ∈ Text.trim cs ↔ ',' ∈ cs := Text.mem_trim_iff (by decide)
  refine Iff.trans ?_ htrim
  rw [bare]
  cases hstrip : Text.stripLead ['W', '/'] (Text.trim cs) with
  | none => exact Iff.rfl
  | some rest =>
    rw [Text.stripLead_eq_some_iff.mp hstrip]
    simp

theorem matchesList_of_hasStar {list : String} (h : HasStar list) (tag : String) :
    matchesList list tag = true := by
  obtain ⟨part, hpart, hstar⟩ := h
  apply List.any_eq_true.mpr ⟨part, hpart, ?_⟩
  rw [candidateMatches, hstar]
  rfl

/-- No candidate has a comma in it. -/
theorem hasStar_of_matchesList {list tag : String} (hcomma : ',' ∈ tag.toList)
    (h : matchesList list tag = true) : HasStar list := by
  obtain ⟨part, hpart, hmatches⟩ := List.any_eq_true.mp h
  rw [candidateMatches, Bool.or_eq_true, beq_iff_eq, beq_iff_eq] at hmatches
  rcases hmatches with hstar | hsame
  · exact ⟨part, hpart, hstar⟩
  · rw [← comma_mem_bare_iff, ← hsame, comma_mem_bare_iff] at hcomma
    exact absurd hcomma (Text.not_mem_of_mem_splitOn hpart)

theorem matchesList_self {tag : String} (hcomma : ',' ∉ tag.toList) {trail : String}
    (htrail : ∀ c ∈ trail.toList, Text.isBlank c = true) :
    matchesList (tag ++ trail) tag = true := by
  have hwhole : ',' ∉ tag.toList ++ trail.toList := by
    rw [List.mem_append]
    rintro (hmem | hmem)
    · exact hcomma hmem
    · exact absurd (htrail ',' hmem) (by decide)
  have htrim : Text.trim (tag.toList ++ trail.toList) = Text.trim tag.toList :=
    Text.trim_append_blanks htrail _
  rw [matchesList_eq, String.toList_append, anyMatches, Text.splitOn_of_not_mem hwhole,
    List.any_cons, candidateMatches_congr htrim, candidateMatches, beq_self_eq_true, Bool.or_true,
    Bool.true_or]

/-- A list stands for each of its members, except for those with a comma, which take a star. -/
theorem matchesList_member_iff {tag list : String} (h : IsMember tag list) :
    matchesList list tag = true ↔ ',' ∉ tag.toList ∨ HasStar list := by
  constructor
  · intro hmatches
    by_cases hcomma : ',' ∈ tag.toList
    · exact .inr (hasStar_of_matchesList hcomma hmatches)
    · exact .inl hcomma
  · rintro (hcomma | hstar)
    · obtain ⟨before, after, lead, trail, hlead, htrail, rfl⟩ := h
      rw [matchesList_members, matchesList_blanks hlead, matchesList_self hcomma htrail,
        Bool.true_or, Bool.or_true]
    · exact matchesList_of_hasStar hstar tag

end EntityTag

/-- A response was stored with a tag, and since then nothing wrote its key. Where the request
without its If-None-Match fields is served the entry, the request with them is a 304 if the tag is a
member of the list and has no comma, or else a star is a member. -/
theorem Engine.notModified_of_stored_tag {n : Namespace} {e : Engine Memory}
    (he : e.backend = Memory.backend n) {r : Request} (hkey : e.keyOf r.unconditional = e.keyOf r)
    {response : Response} {tag : String} (htag : response.headers.get? "etag" = some tag)
    {hint : Option Declaration} {w stored : World Memory} {ttl : Option Duration}
    (hcommit : e.commit (e.keyOf r) response hint w = (.stored ttl, stored)) {later : World Memory}
    (hunwritten : Memory.Unwritten (n.physical (e.keyOf r)) stored.store later.store)
    {route : Declaration}
    (hserved : (e.decide r.unconditional route later).1.outcome = .serveCached) {list : String}
    (hlist : r.ifNoneMatch? = some list) (hmember : EntityTag.IsMember tag list) :
    let decision := (e.decide r route later).1
    decision.cached = some (response.entry (response.effectivePolicy hint) w.now) ∧
      decision.outcome =
        if ',' ∉ tag.toList ∨ EntityTag.HasStar list then .notModified else .serveCached := by
  intro decision
  have hcached : (e.decide r.unconditional route later).1.needsHandler = false := by
    rw [Decision.needsHandler, hserved]
  obtain ⟨entry, hplain⟩ := exists_offers_of_not_needsHandler hcached
  have hlookup : e.lookup r later = e.lookup r.unconditional later := by rw [lookup, lookup, hkey]
  have hoffers : e.Offers r route later entry := hplain.congr rfl hlookup
  -- the entry found is the one that the commit left
  have hget : later.store.get n later.now (e.keyOf r) = some entry := by
    have hfound := hoffers.found
    rw [lookup, he] at hfound
    exact hfound
  obtain ⟨slot, hslot, -, hentry⟩ := Memory.get_eq_some_iff.mp hget
  have hkept := hunwritten slot hslot
  rw [(Memory.commit_stored he hcommit).2, Memory.find?_set, if_pos rfl, Option.some.injEq] at hkept
  obtain rfl : entry = response.entry (response.effectivePolicy hint) w.now := by
    rw [← hentry, ← hkept]
  have hetag : (response.entry (response.effectivePolicy hint) w.now).etag = tag := by
    rw [Response.entry, htag]; rfl
  have hfields : r.headers.joined? "if-none-match" = some list := hlist
  refine ⟨congrArg Decision.cached hoffers.decide_eq, ?_⟩
  show (e.decide r route later).1.outcome = _
  rw [hoffers.outcome, ← EntityTag.any_joined?, hfields, Option.any_some, hetag]
  simp only [EntityTag.matchesList_member_iff hmember]

/-- A weak tag among others in two fields, while another tenant writes and a sweep runs. -/
theorem Engine.notModified_of_stored_tag_among_others :
    let t : Tenant := { space := .default }
    let r : Request :=
      { host := "localhost", path := "/a",
        headers :=
          ⟨[("If-None-Match", "\"x\", W/\"y\""), ("Accept", "*"),
            ("if-none-match", "\tW/\"v;1\" ,\"z\"")]⟩ }
    let response : Response :=
      { headers := ⟨[("Cache-Control", "max-age=60"), ("ETag", "W/\"v;1\"")]⟩, body := [104, 105] }
    let w : World Memory := ⟨⟨1000⟩, {}⟩
    let stored := (t.engine.commit (t.keyOf r) response none w).2
    let events : List (Sharing.Event Unit) := [.advance (.ofSeconds 59), .sweep (.through t.space),
      .commit { space := ⟨"other:"⟩ } (t.keyOf r)
        { headers := ⟨[("Cache-Control", "max-age=9")]⟩ } none]
    let later := (Sharing.run events { world := stored }).world
    let list := "\"x\", W/\"y\", \tW/\"v;1\" ,\"z\""
    r.ifNoneMatch? = some list ∧ EntityTag.IsMember "W/\"v;1\"" list ∧
      (t.engine.decide r.unconditional {} later).1.outcome = .serveCached ∧
      (t.engine.decide r {} later).1.cached =
        some (response.entry (response.effectivePolicy none) w.now) ∧
      (t.engine.decide r {} later).1.outcome = .notModified := by
  intro t r response w stored events later list
  have hlist : r.ifNoneMatch? = some list := by decide +kernel
  have hmember : EntityTag.IsMember "W/\"v;1\"" list :=
    ⟨["\"x\"", " W/\"y\""], ["\"z\""], " \t", " ", by simp [Text.isBlank], by simp [Text.isBlank],
      by decide⟩
  have hstored : (t.engine.commit (t.keyOf r) response none w).1 =
      .stored (some (.ofSeconds 60)) := by decide +kernel
  have hwrites : t.space.physical (t.keyOf r) ∉ Sharing.writes events { world := stored } := by
    decide +kernel
  have hunwritten : Memory.Unwritten (t.space.physical (t.keyOf r)) stored.store later.store :=
    Sharing.run_unwritten hwrites
  have hserved : (t.engine.decide r.unconditional {} later).1.outcome = .serveCached := by
    decide +kernel
  have hplain : ',' ∉ "W/\"v;1\"".toList := by decide
  obtain ⟨hcached, houtcome⟩ :=
    Engine.notModified_of_stored_tag (n := t.space) rfl rfl rfl (Prod.ext hstored rfl) hunwritten
      hserved hlist hmember
  exact ⟨hlist, hmember, hserved, hcached, houtcome.trans (if_pos (.inl hplain))⟩

/-- A comma between the quotes cuts the tag in two. -/
theorem Engine.stored_tag_with_comma_unknown :
    let e : Engine Memory := { backend := Memory.backend .default }
    let r : Request := { host := "localhost", path := "/a" }
    ¬∀ (response : Response) (tag : String) (ttl : Option Duration) (stored : World Memory),
      EntityTag.IsWellFormed tag →
      response.headers.get? "etag" = some tag →
      e.commit (e.keyOf r) response none ⟨⟨0⟩, {}⟩ = (.stored ttl, stored) →
      (e.decide r {} stored).1.outcome = .serveCached →
      (e.decide { r with headers := ⟨[("If-None-Match", tag)]⟩ } {} stored).1.outcome =
        .notModified := by
  intro e r hknown
  let response : Response := { headers := ⟨[("Cache-Control", "max-age=60"), ("ETag", "\"a,b\"")]⟩ }
  have htext : EntityTag.IsTagText ['a', ',', 'b'] := by simp [EntityTag.IsTagText]
  have hstored : (e.commit (e.keyOf r) response none ⟨⟨0⟩, {}⟩).1 =
      .stored (some (.ofSeconds 60)) := by decide +kernel
  have houtcome :=
    hknown response "\"a,b\"" _ _ (.strong htext) rfl (Prod.ext hstored rfl) (by decide +kernel)
  exact absurd houtcome (by decide +kernel)

end ResponseCache
