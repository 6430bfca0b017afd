import Mathlib.Data.Finset.Card
import ResponseCache.Inspection
import ResponseCache.Memory.Basic
import ResponseCache.Proofs.Rounding
import ResponseCache.Proofs.Utf8

/-!
# What a report says

A report goes by the listing that it is made from. Its numbers add up, and its ranking lists the
paths with the most hits: no path that is left out comes before one that is listed.
-/
namespace ResponseCache

theorem Entry.isFresh_iff_ttlRemaining (e : Entry) (now : Instant) :
    e.isFresh now = false ↔ e.ttlRemaining now = some .zero := by
  rw [isFresh, ttlRemaining]
  cases e.expiresAt with
  | none => simp
  | some t =>
    have hzero : t.since now = .zero ↔ t.nanos ≤ now.nanos := by
      rw [Duration.ext_iff, Instant.since_nanos, Duration.zero_nanos]
      omega
    rw [Option.map_some, Option.some.injEq, hzero, ← Bool.not_eq_true, Instant.isBefore_some,
      Instant.lt_iff]
    omega

def Json.at? : Json String → List String → Option (Json String)
  | j, [] => some j
  | .object members, name :: names => (members.lookup name).bind (at? · names)
  | _, _ :: _ => none

namespace Inspection

/-- One path has more of the hits than another, or as many, and its bytes come first. -/
def Outranks (paths : List String) (p q : String) : Prop :=
  paths.count q < paths.count p ∨
    paths.count p = paths.count q ∧ Utf8.encode p.toList < Utf8.encode q.toList

def Before (c d : String × Nat) : Prop := d.2 < c.2 ∨ c.2 = d.2 ∧ c.1 < d.1

theorem rankOne_perm (c : String × Nat) (ds : List (String × Nat)) :
    (rankOne c ds).Perm (c :: ds) := by
  induction ds with
  | nil => exact .refl _
  | cons d ds ih =>
    rw [rankOne]
    split
    · exact .refl _
    · exact (ih.cons d).trans (.swap c d ds)

theorem rank_perm (cs : List (String × Nat)) : (rank cs).Perm cs := by
  induction cs with
  | nil => exact .refl _
  | cons c cs ih => exact (rankOne_perm c (rank cs)).trans (ih.cons c)

/-- Of equal counts the one that is put in stays in front, so it must have the least path. -/
theorem pairwise_rankOne {c : String × Nat} {ds : List (String × Nat)} (hc : ∀ d ∈ ds, c.1 < d.1)
    (h : ds.Pairwise Before) : (rankOne c ds).Pairwise Before := by
  induction ds with
  | nil => exact List.pairwise_singleton _ _
  | cons d ds ih =>
    obtain ⟨hd, hds⟩ := List.pairwise_cons.mp h
    rw [rankOne]
    split
    · rename_i hle
      refine List.pairwise_cons.mpr ⟨?_, h⟩
      intro x hx
      have hcount : x.2 ≤ d.2 := by
        rcases List.mem_cons.mp hx with rfl | hx
        · exact Nat.le_refl _
        · exact (hd x hx).elim Nat.le_of_lt fun heq => Nat.le_of_eq heq.1.symm
      rcases Nat.lt_or_eq_of_le (Nat.le_trans hcount hle) with hlt | heq
      · exact .inl hlt
      · exact .inr ⟨heq.symm, hc x hx⟩
    · rename_i hlt
      refine List.pairwise_cons.mpr ⟨?_, ih (fun x hx => hc x (List.mem_cons_of_mem d hx)) hds⟩
      intro x hx
      rcases List.mem_cons.mp ((rankOne_perm c ds).mem_iff.mp hx) with rfl | hx
      · exact .inl (Nat.lt_of_not_le hlt)
      · exact hd x hx

theorem pairwise_rank {cs : List (String × Nat)} (h : cs.Pairwise fun c d => c.1 < d.1) :
    (rank cs).Pairwise Before := by
  induction cs with
  | nil => exact .nil
  | cons c cs ih =>
    obtain ⟨hc, hcs⟩ := List.pairwise_cons.mp h
    exact pairwise_rankOne (fun d hd => hc d ((rank_perm cs).mem_iff.mp hd)) (ih hcs)

def routes (paths : List String) : List String := (rank (countPaths paths)).map (·.1)

theorem routes_perm (paths : List String) : (routes paths).Perm (Ascending.ofList paths) := by
  have hperm := (rank_perm (countPaths paths)).map (·.1)
  rwa [countPaths, List.map_map, List.map_id''] at hperm
  exact fun _ => rfl

theorem mem_routes_iff {paths : List String} {p : String} : p ∈ routes paths ↔ p ∈ paths := by
  rw [(routes_perm paths).mem_iff, Ascending.mem_ofList]

theorem length_countPaths (paths : List String) :
    (countPaths paths).length = paths.toFinset.card := by
  have hnodup : (Ascending.ofList paths).Nodup :=
    (Ascending.pairwise_ofList paths).imp text_ne_of_lt
  have hsame : (Ascending.ofList paths).toFinset = paths.toFinset := by
    ext p
    simp [Ascending.mem_ofList]
  rw [countPaths, List.length_map, ← List.toFinset_card_of_nodup hnodup, hsame]

theorem pairwise_routes (paths : List String) : (routes paths).Pairwise (Outranks paths) := by
  have hascending : (countPaths paths).Pairwise fun c d => c.1 < d.1 :=
    List.pairwise_map.mpr (Ascending.pairwise_ofList paths)
  have hcount : ∀ c ∈ rank (countPaths paths), c.2 = paths.count c.1 := by
    intro c hc
    obtain ⟨p, -, rfl⟩ := List.mem_map.mp ((rank_perm _).mem_iff.mp hc)
    rfl
  refine List.pairwise_map.mpr ((pairwise_rank hascending).imp_of_mem ?_)
  intro c d hc hd hbefore
  rw [Before, hcount c hc, hcount d hd] at hbefore
  exact hbefore.imp_right fun h => ⟨h.1, Utf8.encode_lt h.2⟩

theorem rel_of_mem_take {α : Type} {R : α → α → Prop} {as : List α} (h : as.Pairwise R) {n : Nat}
    {a b : α} (ha : a ∈ as.take n) (hb : b ∈ as) (hout : b ∉ as.take n) : R a b := by
  rw [← List.take_append_drop n as] at h hb
  exact (List.pairwise_append.mp h).2.2 a ha b ((List.mem_append.mp hb).resolve_left hout)

/-- A report made from a listing at a time. -/
structure Report.Describes (r : Report) (now : Instant) (listed : List (Key × Entry)) : Prop where
  /-- One hit for each entry, in order. -/
  hits : r.hits = listed.map fun x => .ofEntry now x.1 x.2
  expired_iff : ∀ h ∈ r.hits, h.isExpired = true ↔ h.ttlRemaining = some .zero
  /-- Where the seconds that remain are shown, they are zero for these hits and for no others. -/
  shown_iff : ∀ h ∈ r.hits, h.isExpired = true ↔
    ∃ d, h.ttlRemaining = some d ∧ (Binary64.ofDuration d).isZero = true
  expiredHits : r.expiredHits = r.hits.countP (·.isExpired)
  sum : r.validHits + r.expiredHits = r.hits.length
  document : r.document.at? ["cached_hits"] = some (.array (r.hits.map Hit.document)) ∧
    r.document.at? ["total_hits"] = some (.nat r.hits.length) ∧
    r.document.at? ["valid_hits"] = some (.nat r.validHits) ∧
    r.document.at? ["expired_hits"] = some (.nat r.expiredHits) ∧
    r.document.at? ["unique_routes"] = some (.nat r.uniqueRoutes)
  summary : r.document.at? ["summary", "total_cached_entries"] = r.document.at? ["total_hits"] ∧
    r.document.at? ["summary", "active_entries"] = r.document.at? ["valid_hits"] ∧
    r.document.at? ["summary", "expired_entries"] = r.document.at? ["expired_hits"] ∧
    r.document.at? ["summary", "frequently_cached_routes"] = some (.array (r.topRoutes.map .text))
  uniqueRoutes : r.uniqueRoutes = (r.hits.map (·.parts.path)).toFinset.card
  length : r.topRoutes.length = min 10 r.uniqueRoutes
  nodup : r.topRoutes.Nodup
  cached : ∀ p ∈ r.topRoutes, p ∈ r.hits.map (·.parts.path)
  ranked : r.topRoutes.Pairwise (Outranks (r.hits.map (·.parts.path)))
  leftOut : ∀ p ∈ r.topRoutes, ∀ q ∈ r.hits.map (·.parts.path), q ∉ r.topRoutes →
    Outranks (r.hits.map (·.parts.path)) p q

theorem Hit.isExpired_ofEntry_iff (now : Instant) (k : Key) (e : Entry) :
    (ofEntry now k e).isExpired = true ↔ (ofEntry now k e).ttlRemaining = some .zero := by
  show (!e.isFresh now) = true ↔ e.ttlRemaining now = some .zero
  rw [Bool.not_eq_true', e.isFresh_iff_ttlRemaining]

theorem Report.topRoutes_ofHits (hits : List Hit) :
    (ofHits hits).topRoutes = (routes (hits.map (·.parts.path))).take topSize := List.map_take

theorem Report.describes_ofHits (now : Instant) (listed : List (Key × Entry)) :
    (ofHits (listed.map fun x => .ofEntry now x.1 x.2)).Describes now listed := by
  generalize hhits : (listed.map fun x => Hit.ofEntry now x.1 x.2) = hits
  have hexpired : ∀ h ∈ hits, h.isExpired = true ↔ h.ttlRemaining = some .zero := by
    subst hhits
    intro h hh
    obtain ⟨x, -, rfl⟩ := List.mem_map.mp hh
    exact Hit.isExpired_ofEntry_iff now x.1 x.2
  have htop := topRoutes_ofHits hits
  have hranked := pairwise_routes (hits.map (·.parts.path))
  have hnodup : (routes (hits.map (·.parts.path))).Nodup :=
    (routes_perm _).nodup_iff.mpr ((Ascending.pairwise_ofList _).imp text_ne_of_lt)
  constructor
  case hits => exact hhits.symm
  case expired_iff => exact hexpired
  case shown_iff =>
    intro h hh
    rw [hexpired h hh]
    simp [Binary64.isZero_ofDuration_iff]
  case expiredHits => rfl
  case sum => exact Nat.sub_add_cancel List.countP_le_length
  case document => exact ⟨rfl, rfl, rfl, rfl, rfl⟩
  case summary => exact ⟨rfl, rfl, rfl, rfl⟩
  case uniqueRoutes => exact length_countPaths _
  case length =>
    show _ = min 10 (countPaths _).length
    rw [htop, List.length_take, (routes_perm _).length_eq, countPaths, List.length_map]
    rfl
  case nodup => exact htop ▸ hnodup.sublist (List.take_sublist _ _)
  case cached =>
    rw [htop]
    exact fun p hp => mem_routes_iff.mp (List.mem_of_mem_take hp)
  case ranked => exact htop ▸ hranked.take
  case leftOut =>
    rw [htop]
    exact fun p hp q hq hout => rel_of_mem_take hranked hp (mem_routes_iff.mpr hq) hout

/-- A report succeeds exactly if the listing does, with the same state of the store afterwards, and
describes what is listed. -/
theorem report_describes {σ : Type} (b : Backend σ) (now : Instant) (s s' : σ) :
    (∀ e, b.entries now s = (.error e, s') → collect b now s = (.error e, s')) ∧
    ∀ listed, b.entries now s = (.ok listed, s') →
      ∃ r, collect b now s = (.ok r, s') ∧ r.Describes now listed := by
  constructor
  · intro e he
    rw [collect, he]
  · intro listed hlisted
    rw [collect, hlisted]
    exact ⟨_, rfl, Report.describes_ofHits now listed⟩

/-- Fourteen entries under twelve paths, two of which have two. Two of the keys have no parts, so
that their path is empty. One entry is stale, and it is kept. -/
theorem report_describes_many_routes :
    let now : Instant := ⟨2000000000, by decide, by decide⟩
    let e : Entry :=
      { etag := "", content := [], status := .ok, headers := {}, storedAt := .epoch,
        expiresAt := none, policy := {} }
    let stale : Entry := { e with expiresAt := some now }
    let b := Memory.backend .default
    let routed (path : Char) (query : List (String × String)) : Key :=
      .derive .get "h" (String.ofList ['/', path]) query
    let keys := ['k', 'j', 'i', 'h', 'g', 'f', 'e', 'd', 'c', 'b'].map (routed · []) ++
      [routed 'k' [("q", "")], ⟨"x"⟩, ⟨"a|||/a"⟩]
    let m :=
      (b.set .epoch (routed 'a' []) stale none
        (keys.foldl (fun m k => (b.set .epoch k e none m).2) {})).2
    ∃ r, collect b now m = (.ok r, m) ∧ r.Describes now (m.entries .default now) ∧
      r.hits.length = 14 ∧ r.expiredHits = 1 ∧ r.uniqueRoutes = 12 ∧
      r.topRoutes = ["", "/k", "/a", "/b", "/c", "/d", "/e", "/f", "/g", "/h"] := by
  intro now e stale b routed keys m
  obtain ⟨r, hr, hdescribes⟩ := (report_describes b now m m).2 (m.entries .default now) rfl
  have hnumbers : (collect b now m).1.toOption.map
      (fun r => (r.hits.length, r.expiredHits, r.uniqueRoutes, r.topRoutes)) =
      some (14, 1, 12, ["", "/k", "/a", "/b", "/c", "/d", "/e", "/f", "/g", "/h"]) := by
    decide +kernel
  obtain ⟨hhits, hexpired, hunique, htop⟩ : r.hits.length = 14 ∧ r.expiredHits = 1 ∧
      r.uniqueRoutes = 12 ∧
      r.topRoutes = ["", "/k", "/a", "/b", "/c", "/d", "/e", "/f", "/g", "/h"] := by
    simpa [hr, Except.toOption] using hnumbers
  exact ⟨r, hr, hdescribes, hhits, hexpired, hunique, htop⟩

end Inspection
end ResponseCache
