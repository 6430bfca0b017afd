import ResponseCache.Memcached.Backend
import ResponseCache.Proofs.Documents
import ResponseCache.Proofs.Keys

/-!
# Keys on the wire

A key that the protocol refuses goes out as a digest. Derived keys have bars in them and digests
have none, so two derived keys can only meet on the wire if their digests do.
-/
namespace ResponseCache

namespace Hex

theorem lowerDigit_inj {m n : Nat} (hm : m < 16) (hn : n < 16) (h : lowerDigit m = lowerDigit n) :
    m = n := by
  have hvalue := congrArg (fun c : Char => digitValue c.toNat) h
  simp only [digitValue_lowerDigit hm, digitValue_lowerDigit hn, Option.some.injEq] at hvalue
  exact hvalue

theorem ofBytes_cons (b : UInt8) (bs : Bytes) :
    ofBytes (b :: bs) = lowerDigit (b.toNat / 16) :: lowerDigit (b.toNat % 16) :: ofBytes bs := rfl

theorem ofBytes_inj {bs bs' : Bytes} (h : ofBytes bs = ofBytes bs') : bs = bs' := by
  induction bs generalizing bs' with
  | nil =>
    cases bs' with
    | nil => rfl
    | cons b' bs' => cases h
  | cons b bs ih =>
    cases bs' with
    | nil => cases h
    | cons b' bs' =>
      rw [ofBytes_cons, ofBytes_cons, List.cons.injEq, List.cons.injEq] at h
      obtain ⟨hhigh, hlow, hrest⟩ := h
      have hb := b.toNat_lt
      have hb' := b'.toNat_lt
      replace hhigh := lowerDigit_inj (by omega) (by omega) hhigh
      replace hlow := lowerDigit_inj (by omega) (by omega) hlow
      have hbyte : b = b' := UInt8.toNat_inj.mp (by omega)
      rw [hbyte, ih hrest]

theorem exists_of_mem_ofBytes {bs : Bytes} {c : Char} (h : c ∈ ofBytes bs) :
    ∃ n, n < 16 ∧ c = lowerDigit n := by
  obtain ⟨b, -, hc⟩ := List.mem_flatMap.mp h
  have hb := b.toNat_lt
  rw [List.mem_cons, List.mem_singleton] at hc
  rcases hc with rfl | rfl
  · exact ⟨_, by omega, rfl⟩
  · exact ⟨_, by omega, rfl⟩

theorem bar_not_mem_ofBytes (bs : Bytes) : '|' ∉ ofBytes bs := by
  have hdigit : ∀ n : Fin 16, '|' ≠ lowerDigit n.1 := by decide
  intro h
  obtain ⟨n, hn, heq⟩ := exists_of_mem_ofBytes h
  exact hdigit ⟨n, hn⟩ heq

end Hex

namespace Key

def digest (k : Key) : Bytes := Sha256.digest (Utf8.encode k.text.toList)

/-- What goes out in the place of a key that the protocol refuses. -/
def digestText (k : Key) : String := String.ofList (Hex.ofBytes k.digest)

theorem digestText_inj {k k' : Key} (h : k.digestText = k'.digestText) : k.digest = k'.digest :=
  Hex.ofBytes_inj (String.ofList_injective h)

def IsDerived (k : Key) : Prop := ∃ method host path query, k = derive method host path query

theorem isDerived_ofRequest (r : Request) : (ofRequest r).IsDerived :=
  ⟨r.method, r.host, r.path, r.query, rfl⟩

/-- No derived key looks like a digest. -/
theorem IsDerived.ne_digestText {k : Key} (h : k.IsDerived) (k' : Key) :
    k.text ≠ k'.digestText := by
  obtain ⟨method, host, path, query, rfl⟩ := h
  intro heq
  have hbar : '|' ∈ (derive method host path query).text.toList := by
    simp [derive, bars]
  rw [heq, digestText, String.toList_ofList] at hbar
  exact Hex.bar_not_mem_ofBytes _ hbar

/-- Keys that do not meet on the wire: no two have one digest, and what is no derived key is not
spelled as the digest of any. -/
structure Apart (keys : List Key) : Prop where
  digests : ∀ k ∈ keys, ∀ k' ∈ keys, k.digest = k'.digest → k = k'
  spellings : ∀ k ∈ keys, (∃ r, k = ofRequest r) ∨ ∀ k' ∈ keys, k.text ≠ k'.digestText

theorem Apart.ne_digestText {keys : List Key} (h : Apart keys) {k k' : Key} (hk : k ∈ keys)
    (hk' : k' ∈ keys) : k.text ≠ k'.digestText := by
  rcases h.spellings k hk with ⟨r, rfl⟩ | hplain
  · exact (isDerived_ofRequest r).ne_digestText k'
  · exact hplain k' hk'

theorem apart_of_requests {keys : List Key} {r r' : Request}
    (h : (ofRequest r).digest ≠ (ofRequest r').digest)
    (hkeys : ∀ k ∈ keys, k = ofRequest r ∨ k = ofRequest r') : Apart keys where
  digests k hk k' hk' hdigest := by
    rcases hkeys k hk with rfl | rfl
    · rcases hkeys k' hk' with rfl | rfl
      · rfl
      · exact absurd hdigest h
    · rcases hkeys k' hk' with rfl | rfl
      · exact absurd hdigest.symm h
      · rfl
  spellings k hk := by
    rcases hkeys k hk with rfl | rfl
    · exact .inl ⟨r, rfl⟩
    · exact .inl ⟨r', rfl⟩

end Key

namespace Memcached

theorem wireKey_eq (n : Namespace) (k : Key) :
    wireKey n k = if isValidKey (n.physical k) then n.physical k else n.physical ⟨k.digestText⟩ :=
  rfl

/-- Unless one is spelled as the other's digest, keys have one name on the wire only if they are one
key, or both are refused and their digests are the same. -/
theorem wireKey_eq_iff {n : Namespace} {k k' : Key} (hk : k.text ≠ k'.digestText)
    (hk' : k'.text ≠ k.digestText) :
    wireKey n k = wireKey n k' ↔
      k = k' ∨ isValidKey (n.physical k) = false ∧ isValidKey (n.physical k') = false ∧
        k.digest = k'.digest := by
  by_cases hsame : k = k'
  · subst hsame
    simp
  have hplain : k ≠ ⟨k'.digestText⟩ := fun h => hk (congrArg Key.text h)
  have hplain' : ⟨k.digestText⟩ ≠ k' := fun h => hk' (congrArg Key.text h).symm
  have hdigests : k.digestText = k'.digestText ↔ k.digest = k'.digest :=
    ⟨Key.digestText_inj, fun h => congrArg (fun bs => String.ofList (Hex.ofBytes bs)) h⟩
  rw [wireKey_eq, wireKey_eq]
  cases hvalid : isValidKey (n.physical k) with
  | true =>
    cases hvalid' : isValidKey (n.physical k') with
    | true => simp [Namespace.physical_inj]
    | false => simp [Namespace.physical_inj, hplain, hsame]
  | false =>
    cases hvalid' : isValidKey (n.physical k') with
    | true => simp [Namespace.physical_inj, hplain', hsame]
    | false => simp [Namespace.physical_inj, hdigests, hsame]

theorem wireKey_inj {n : Namespace} {k k' : Key} (hdigest : k.digest = k'.digest → k = k')
    (hk : k.text ≠ k'.digestText) (hk' : k'.text ≠ k.digestText) (h : wireKey n k = wireKey n k') :
    k = k' :=
  ((wireKey_eq_iff hk hk').mp h).elim id fun hrefused => hdigest hrefused.2.2

/-- Derived keys that differ go out under names that differ, be they sent as they are or as digests,
unless they are two texts with one digest. -/
theorem derived_keys_apart (n : Namespace) {k k' : Key} (hk : k.IsDerived) (hk' : k'.IsDerived)
    (hdigest : k.digest = k'.digest → k = k') (hne : k ≠ k') : wireKey n k ≠ wireKey n k' := by
  intro hwire
  exact hne (wireKey_inj hdigest (hk.ne_digestText k') (hk'.ne_digestText k) hwire)

/-- A key that is sent as it is, and two that are replaced, since there are spaces in them. -/
theorem derived_keys_apart_spaced :
    let n := Namespace.default
    let plain := Key.derive .get "h" "/a" []
    let spaced := Key.derive .get "h" "/a b" []
    let spaced' := Key.derive .get "h" "/a b" [("q", "")]
    isValidKey (n.physical plain) = true ∧ isValidKey (n.physical spaced) = false ∧
      isValidKey (n.physical spaced') = false ∧
      wireKey n plain ≠ wireKey n spaced ∧ wireKey n spaced ≠ wireKey n spaced' := by
  intro n plain spaced spaced'
  have hplain : plain.IsDerived := ⟨_, _, _, _, rfl⟩
  have hspaced : spaced.IsDerived := ⟨_, _, _, _, rfl⟩
  have hspaced' : spaced'.IsDerived := ⟨_, _, _, _, rfl⟩
  have hmixed : plain.digest ≠ spaced.digest := by decide +kernel
  have hhashed : spaced.digest ≠ spaced'.digest := by decide +kernel
  refine ⟨by decide, by decide, by decide, ?_, ?_⟩
  · exact derived_keys_apart n hplain hspaced (fun h => absurd h hmixed) (by decide)
  · exact derived_keys_apart n hspaced hspaced' (fun h => absurd h hhashed) (by decide)

end Memcached

theorem Key.Apart.wireKey_inj {keys : List Key} (h : Key.Apart keys) (n : Namespace) {k k' : Key}
    (hk : k ∈ keys) (hk' : k' ∈ keys) (hwire : Memcached.wireKey n k = Memcached.wireKey n k') :
    k = k' :=
  Memcached.wireKey_inj (h.digests k hk k' hk') (h.ne_digestText hk hk')
    (h.ne_digestText hk' hk) hwire

end ResponseCache
