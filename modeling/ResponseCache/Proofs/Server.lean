import ResponseCache.KeyValue.Server
import ResponseCache.Proofs.Contract
import ResponseCache.Proofs.Slots

/-!
# The server keeps the contract

As long as no call fails and nothing is hidden from its reads, a server is a store that keeps its
word, whatever the size of its pages and whether or not its scans name keys twice or keys that do
not match.
-/
namespace ResponseCache.KeyValue.Server

/-- A server is ready when no call fails, nothing is hidden from reads and pages have room; reads
find the items whose time is not up. -/
def view : View Server where
  ready s := s.base.faults = {} ∧ s.listing.hidden = [] ∧ s.listing.page ≠ some 0
  value? t key s := ((s.base.expire t).items.find? key).map (·.value)

variable {α : Type} (now : Instant) {s : Server}

theorem call_of_ready (hs : view.ready s)
    (body : ItemStore Duration → Except StoreError α × ItemStore Duration) :
    ItemStore.call now body s.base = body (s.base.expire now) :=
  ItemStore.call_of_faultless now body hs.1

/-- Dropping the items whose time is up changes no later read. -/
theorem leaves_expire (hs : view.ready s) :
    view.Leaves now { s with base := s.base.expire now } fun later k => view.value? later k s := by
  refine ⟨hs, ?_⟩
  intro later hlater key
  exact congrArg (Option.map _) (ItemStore.find?_expire_later hlater s.base key)

theorem get_leaves (hs : view.ready s) (key : String) :
    ∃ s', get now key s = (.ok (view.value? now key s), s') ∧
      view.Leaves now s' fun later k => view.value? later k s := by
  refine ⟨{ s with base := s.base.expire now }, ?_, leaves_expire now hs⟩
  rw [get, onBase, call_of_ready now hs, hs.2.1]
  rfl

theorem set_leaves (hs : view.ready s) (key : String) (value : Bytes) (ttl : Option Duration) :
    ∃ s', set now key value ttl s = (.ok (), s') ∧ view.Leaves now s' fun later k =>
      if k = key then (if later.isBefore (ttl.bind now.add?) then some value else none)
      else view.value? later k s := by
  refine ⟨{ s with base := { s.base.expire now with
    items := (s.base.expire now).items.insert key
      { value, dropAt := ttl.bind now.add?, expiry := ttl } } }, ?_, hs, ?_⟩
  · rw [set, onBase, ItemStore.put_of_faultless now _ _ hs.1]
  · intro later hlater k
    rw [← (leaves_expire now hs).value? later hlater k]
    simp only [view, ItemStore.find?_expire, KeyMap.find?_insert]
    by_cases hk : k = key
    · rw [if_pos hk, if_pos hk, Option.filter_some]
      split
      · rfl
      · rfl
    · rw [if_neg hk, if_neg hk]

theorem del_leaves (hs : view.ready s) (keys : List String) :
    ∃ n s', del now keys s = (.ok n, s') ∧
      view.Leaves now s' fun later k => if k ∈ keys then none else view.value? later k s := by
  let kept := (s.base.expire now).items.filter fun k _ => !keys.contains k
  refine ⟨(s.base.expire now).items.size - kept.size,
    { s with base := { s.base.expire now with items := kept } }, ?_, hs, ?_⟩
  · rw [del, onBase, ItemStore.remove, call_of_ready now hs]
  · intro later hlater k
    rw [← (leaves_expire now hs).value? later hlater k]
    simp only [view, kept, ItemStore.find?_expire, KeyMap.find?_filter]
    by_cases hk : k ∈ keys
    · simp [hk]
    · simp [hk]

theorem scan_of_ready (hs : view.ready s) (cursor : Nat) (pattern : String) (count : Nat) :
    scan now cursor pattern count s =
      (.ok (nextCursor cursor (s.listing.page.getD count) (s.base.expire now).items.size,
        pageKeys s.listing pattern
          (((s.base.expire now).items.keys.drop cursor).take (s.listing.page.getD count))),
      { s with base := s.base.expire now }) := by
  rw [scan, onBase, call_of_ready now hs]

theorem of_scan (hs : view.ready s) {cursor next count : Nat} {pattern : String}
    {keys : List String} {s' : Server}
    (h : scan now cursor pattern count s = (.ok (next, keys), s')) :
    nextCursor cursor (s.listing.page.getD count) (s.base.expire now).items.size = next ∧
      pageKeys s.listing pattern
        (((s.base.expire now).items.keys.drop cursor).take (s.listing.page.getD count)) = keys ∧
      { s with base := s.base.expire now } = s' := by
  have hscan := (scan_of_ready now hs cursor pattern count).symm.trans h
  simpa only [Prod.mk.injEq, Except.ok.injEq, and_assoc] using hscan

theorem mem_pageKeys_iff {l : Listing} {pattern key : String} {keys : List String} :
    key ∈ pageKeys l pattern keys ↔ key ∈ keys ∧
      (l.loose = true ∨ Wildcard.isMatch pattern key = true) := by
  rw [pageKeys]
  split
  · simp
  · simp

theorem page_ne_zero {count : Nat} (hs : view.ready s) (hcount : 0 < count) :
    s.listing.page.getD count ≠ 0 := by
  have hpage := hs.2.2
  cases h : s.listing.page with
  | none => exact Nat.ne_of_gt hcount
  | some n =>
    intro hn
    rw [h] at hpage
    exact hpage (congrArg some hn)

variable {now} in
theorem mem_keys_iff {name : String} :
    name ∈ (s.base.expire now).items.keys ↔ view.value? now name s ≠ none := by
  rw [KeyMap.keys, List.mem_map, ne_eq, view, Option.map_eq_none_iff, ← ne_eq,
    Option.ne_none_iff_exists']
  constructor
  · rintro ⟨⟨_, item⟩, hitem, rfl⟩
    exact ⟨item, KeyMap.find?_eq_some_iff.mpr hitem⟩
  · rintro ⟨item, hitem⟩
    exact ⟨(name, item), KeyMap.find?_eq_some_iff.mp hitem, rfl⟩

variable {now} in
/-- A scan names what matches among the keys from its cursor on, and no others if it is not to. -/
theorem mem_pages_iff {pattern name : String} {count cursor : Nat} {s s' : Server}
    {keys : List String} (hs : view.ready s) (hcount : 0 < count)
    (hpages : Pages client now pattern count cursor s keys s') :
    name ∈ keys ↔ name ∈ (s.base.expire now).items.keys.drop cursor ∧
      (s.listing.loose = true ∨ Wildcard.isMatch pattern name = true) := by
  induction hpages with
  | @last cursor s s' keys hpage =>
    obtain ⟨hnext, rfl, rfl⟩ := of_scan now hs hpage
    have hpos : s.listing.page.getD count ≠ 0 := page_ne_zero hs hcount
    have hall : ((s.base.expire now).items.keys.drop cursor).length ≤
        s.listing.page.getD count := by
      rw [List.length_drop, KeyMap.keys, List.length_map]
      rw [nextCursor, KeyMap.size] at hnext
      split at hnext
      · omega
      · omega
    rw [mem_pageKeys_iff, List.take_of_length_le hall]
  | @more cursor next s s' s'' keys rest hpage hnext hrest ih =>
    obtain ⟨hcursor, rfl, rfl⟩ := of_scan now hs hpage
    have hmoved : next = cursor + s.listing.page.getD count := by
      rw [nextCursor] at hcursor
      split at hcursor
      · exact absurd hcursor.symm hnext
      · exact hcursor.symm
    rw [List.mem_append, mem_pageKeys_iff, ih hs, ItemStore.expire_expire, hmoved, ← List.drop_drop,
      ← or_and_right, ← List.mem_append, List.take_append_drop]

/-- A server keeps the contract. -/
theorem contract : Contract client view where
  gone := by
    intro now later key s hs hlater hnone
    simp only [view, Option.map_eq_none_iff] at *
    rw [ItemStore.find?_expire, Option.filter_eq_none_iff] at *
    intro item hitem hlive
    exact hnone item hitem (Instant.isBefore_mono hlater hlive)
  get _ key hs := get_leaves _ hs key
  set _ key value ttl hs := set_leaves _ hs key value ttl
  del _ keys hs := del_leaves _ hs keys
  page now cursor pattern count hs :=
    ⟨_, _, _, scan_of_ready now hs cursor pattern count, leaves_expire now hs⟩
  scan := by
    intro now pattern count s keys s' key hs hcount hpages hlive hmatch
    exact (mem_pages_iff hs hcount hpages).mpr ⟨mem_keys_iff.mpr hlive, .inr hmatch⟩

end ResponseCache.KeyValue.Server
