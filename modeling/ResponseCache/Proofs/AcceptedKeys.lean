import ResponseCache.Proofs.Indices
import ResponseCache.Proofs.Percent
import ResponseCache.Proofs.WireKeys
import ResponseCache.Settings

/-!
# Keys that the protocol takes

In the place of a key that the protocol refuses, a digest goes out behind the namespace. So every
key is taken if the namespace leaves room for a digest, and if it does not, nearly none is. Nothing
in the settings asks for that room.
-/
namespace ResponseCache

def Recorded.Adds {κ σ : Type} (P : κ → Prop) (r r' : Recorded κ σ) : Prop :=
  ∃ added, r'.calls = added ++ r.calls ∧ ∀ call ∈ added, P call

namespace Recorded.Adds
variable {κ σ : Type} {P : κ → Prop} {r r' r'' : Recorded κ σ}

theorem refl (P : κ → Prop) (r : Recorded κ σ) : Recorded.Adds P r r :=
  ⟨[], rfl, fun _ h => absurd h List.not_mem_nil⟩

theorem trans (h : Recorded.Adds P r r') (h' : Recorded.Adds P r' r'') : Recorded.Adds P r r'' := by
  obtain ⟨added, hcalls, hadded⟩ := h
  obtain ⟨added', hcalls', hadded'⟩ := h'
  refine ⟨added' ++ added, by rw [hcalls', hcalls, List.append_assoc], ?_⟩
  intro call hcall
  rcases List.mem_append.mp hcall with hlate | hearly
  · exact hadded' call hlate
  · exact hadded call hearly

theorem one {call : κ} (hcall : P call) (hcalls : r'.calls = call :: r.calls) :
    Recorded.Adds P r r' :=
  ⟨[call], hcalls, by simpa using hcall⟩

end Recorded.Adds

def Operation.key? : Operation → Option Key
  | .get k | .set k _ _ | .delete k => some k
  | _ => none

namespace Memcached

def Call.key : Call → String
  | .get key | .set key _ | .delete key => key

/-- No byte of the text is a control byte or a space. -/
def IsPlain (cs : List Char) : Prop := ∀ b ∈ Utf8.encode cs, 0x20 < b.toNat ∧ b.toNat ≠ 0x7f

instance (cs : List Char) : Decidable (IsPlain cs) := List.decidableBAll _ _

structure Accepted (key : String) : Prop where
  short : (Utf8.encode key.toList).length ≤ maxKeyLength
  plain : IsPlain key.toList

theorem isValidKey_iff {key : String} : isValidKey key = true ↔ Accepted key := by
  rw [isValidKey, Bool.and_eq_true, decide_eq_true_iff, List.all_eq_true]
  constructor
  · rintro ⟨hshort, hall⟩
    exact ⟨hshort, fun b hb => by simpa using hall b hb⟩
  · rintro ⟨hshort, hplain⟩
    exact ⟨hshort, fun b hb => by simpa using hplain b hb⟩

theorem isPlain_append {a b : List Char} : IsPlain (a ++ b) ↔ IsPlain a ∧ IsPlain b := by
  rw [IsPlain, Utf8.encode_append, List.forall_mem_append]
  rfl

theorem accepted_physical_iff {n : Namespace} {k : Key} : Accepted (n.physical k) ↔
    (Utf8.encode n.lead.toList).length + (Utf8.encode k.text.toList).length ≤ maxKeyLength ∧
      IsPlain n.lead.toList ∧ IsPlain k.text.toList := by
  have hphysical : (n.physical k).toList = n.lead.toList ++ k.text.toList := String.toList_append
  rw [← isPlain_append, ← hphysical, ← List.length_append, ← Utf8.encode_append, ← hphysical]
  exact ⟨fun h => ⟨h.short, h.plain⟩, fun h => ⟨h.1, h.2⟩⟩

end Memcached

/-- A digest may stand behind the text. -/
structure Namespace.LeavesRoom (n : Namespace) : Prop where
  short : (Utf8.encode n.lead.toList).length + 64 ≤ Memcached.maxKeyLength
  plain : Memcached.IsPlain n.lead.toList

theorem Hex.lowerDigit_plain {n : Nat} (h : n < 16) :
    0x20 < (lowerDigit n).toNat ∧ (lowerDigit n).toNat < 0x7f := by
  have : ∀ n : Fin 16, 0x20 < (lowerDigit n.1).toNat ∧ (lowerDigit n.1).toNat < 0x7f := by decide
  exact this ⟨n, h⟩

theorem Hex.encode_ofBytes (bs : Bytes) :
    Utf8.encode (ofBytes bs) = (ofBytes bs).map fun c => UInt8.ofNat c.toNat := by
  apply Utf8.encode_of_ascii
  intro c hc
  obtain ⟨n, hn, rfl⟩ := exists_of_mem_ofBytes hc
  have hdigit := lowerDigit_plain hn
  omega

namespace Memcached
variable {n : Namespace}

theorem isPlain_digits (bs : Bytes) : IsPlain (Hex.ofBytes bs) := by
  intro b hb
  rw [Hex.encode_ofBytes] at hb
  obtain ⟨c, hc, rfl⟩ := List.mem_map.mp hb
  obtain ⟨n, hn, rfl⟩ := Hex.exists_of_mem_ofBytes hc
  have hdigit := Hex.lowerDigit_plain hn
  have hbyte : (UInt8.ofNat (Hex.lowerDigit n).toNat).toNat = (Hex.lowerDigit n).toNat := by
    rw [UInt8.toNat_ofNat']
    omega
  rw [hbyte]
  omega

theorem accepted_digest_iff (k : Key) : Accepted (n.physical ⟨k.digestText⟩) ↔ n.LeavesRoom := by
  have htext : k.digestText.toList = Hex.ofBytes k.digest := String.toList_ofList
  have hlength : (Utf8.encode k.digestText.toList).length = 64 := by
    rw [htext, Hex.encode_ofBytes, List.length_map]
    exact Sha256.length_hex_digest _
  rw [accepted_physical_iff, hlength, htext]
  exact ⟨fun h => ⟨h.1, h.2.1⟩, fun h => ⟨h.short, h.plain, isPlain_digits k.digest⟩⟩

/-- A key is taken as it is, or as a digest if there is room for one. -/
theorem accepted_wireKey_iff {k : Key} :
    Accepted (wireKey n k) ↔ Accepted (n.physical k) ∨ n.LeavesRoom := by
  rw [wireKey_eq]
  split
  · rename_i hvalid
    exact ⟨.inl, fun _ => isValidKey_iff.mp hvalid⟩
  · rename_i hinvalid
    rw [accepted_digest_iff, or_iff_right (mt isValidKey_iff.mpr hinvalid)]

theorem forall_accepted_iff : (∀ k, Accepted (wireKey n k)) ↔ n.LeavesRoom := by
  constructor
  · intro h
    refine (accepted_wireKey_iff.mp (h ⟨" "⟩)).resolve_left fun hspace => ?_
    obtain ⟨-, -, hplain⟩ := accepted_physical_iff.mp hspace
    revert hplain
    decide
  · intro h k
    exact accepted_wireKey_iff.mpr (.inr h)

variable {σ : Type} {client : Client σ}

theorem recorded_follows (client : Client σ) (P : String → Prop) :
    client.recorded.Follows (fun _ => True) P (Recorded.Adds (P ·.key)) where
  refl r := .refl _ r
  trans h h' := h.trans h'
  get {_ key} _ _ hkey := .one (show P (Call.get key).key from hkey) rfl
  set {_ key} _ expiry _ _ hkey := .one (show P (Call.set key expiry).key from hkey) rfl
  delete {_ key} _ _ hkey := .one (show P (Call.delete key).key from hkey) rfl

/-- An operation on one key is one call, whatever comes of it. -/
theorem after_one_call {op : Operation} {k : Key} (h : op.key? = some k) (now : Instant)
    (s : State (Recorded Call σ)) :
    ∃ call : Call, ((handle client.recorded n).after now s op).store.calls = call :: s.store.calls ∧
      call.key = wireKey n k := by
  cases op with
  | get k' =>
    cases h
    refine ⟨.get (wireKey n k), ?_, rfl⟩
    show (get client.recorded n now k s).2.store.calls = _
    rw [get_eq]
    rfl
  | set k' e ttl =>
    cases h
    refine ⟨.set (wireKey n k) (expiry now ttl), ?_, rfl⟩
    show (set client.recorded n now k e ttl s).2.store.calls = _
    rw [set_store]
    rfl
  | delete k' =>
    cases h
    refine ⟨.delete (wireKey n k), ?_, rfl⟩
    show (delete client.recorded n now k s).2.store.calls = _
    rw [delete_store]
    rfl
  | _ => cases h

/-- However operations follow each other and whatever calls fail, and whoever else wrote to the
store before: all keys that are sent stand for keys of the namespace, and an operation on one key
sends what stands for it. That is taken if the key behind the namespace is, or the namespace leaves
room for a digest. All keys are taken if and only if it does. -/
theorem keys_accepted_iff_leavesRoom {index : Written} (hindex : Indexed client.recorded n index)
    (ops : List (Instant × Operation)) (store : Recorded Call σ) :
    (∃ added, ((handle client.recorded n).run ops ⟨store, index⟩).store.calls =
      added ++ store.calls ∧
      ∀ call ∈ added, ∃ k, call.key = wireKey n k) ∧
    (∀ op k, op.key? = some k → ∀ now s, ∃ call : Call,
      ((handle client.recorded n).after now s op).store.calls = call :: s.store.calls ∧
        call.key = wireKey n k) ∧
    (∀ k, Accepted (wireKey n k) ↔ Accepted (n.physical k) ∨ n.LeavesRoom) ∧
    ((∀ k, Accepted (wireKey n k)) ↔ n.LeavesRoom) := by
  have hsent : ∀ k, ∃ k', wireKey n k = wireKey n k' := fun k => ⟨k, rfl⟩
  have hall : index.All fun key => ∃ k, key = wireKey n k := hindex.all hsent
  refine ⟨run_follows (recorded_follows client _) hsent (fun _ _ => trivial) (s := ⟨store, index⟩)
    hall, ?_, ?_, ?_⟩
  · intro op k hk now s
    exact after_one_call hk now s
  · intro k
    exact accepted_wireKey_iff
  · exact forall_accepted_iff

/-- In a namespace with a letter of two bytes: a key with a space, which was written before, is
cleared, after another key was looked up. -/
theorem keys_accepted_iff_leavesRoom_spaced :
    let n : Namespace := ⟨"naïve:"⟩
    let e : Entry :=
      { etag := "", content := [], status := .ok, headers := {}, storedAt := .epoch,
        expiresAt := none, policy := {} }
    let h := handle Server.client.recorded n
    let stored := h.after .epoch ⟨⟨{}, []⟩, {}⟩ (.set ⟨"a b"⟩ e none)
    let later :=
      h.run [(.epoch, .get ⟨"c"⟩), (.epoch, .clear)] ⟨⟨stored.store.store, []⟩, stored.written⟩
    n.LeavesRoom ∧ ¬Accepted (n.physical ⟨"a b"⟩) ∧
      later.store.calls.map Call.key =
        ["naïve:c8687a08aa5d6ed2044328fa6a697ab8e96dc34291e8c2034ae8c38e6fcc6d65", "naïve:c"] ∧
      ∀ call ∈ later.store.calls, Accepted call.key := by
  intro n e h stored later
  have hroom : n.LeavesRoom := ⟨by decide, by decide⟩
  have hspace : ¬IsPlain "a b".toList := by decide
  have hindex : Indexed Server.client.recorded n stored.written := .after _ _ _ .fresh
  obtain ⟨hcalls, -, -, haccepted⟩ :=
    keys_accepted_iff_leavesRoom hindex [(.epoch, .get ⟨"c"⟩), (.epoch, .clear)]
      ⟨stored.store.store, []⟩
  have hlater : later = (handle Server.client.recorded n).run
      [(.epoch, .get ⟨"c"⟩), (.epoch, .clear)] ⟨⟨stored.store.store, []⟩, stored.written⟩ := rfl
  rw [← hlater] at hcalls
  obtain ⟨added, hsame, hadded⟩ := hcalls
  refine ⟨hroom, fun h => hspace (accepted_physical_iff.mp h).2.2, by decide +kernel, ?_⟩
  intro call hcall
  rw [hsame, List.append_nil] at hcall
  obtain ⟨k, hk⟩ := hadded call hcall
  rw [hk]
  exact haccepted.mpr hroom k

/-- Settings may have a space in the namespace, and all keys then have it. -/
theorem check_passes_without_room :
    ¬∀ (settings : Settings) (k : Key), settings.check = .ok () →
      Accepted (wireKey settings.space k) := by
  intro haccepted
  have hspace : ¬IsPlain "my app:".toList := by decide
  rcases accepted_wireKey_iff.mp (haccepted { space := ⟨"my app:"⟩ } ⟨"k"⟩ rfl) with hkey | hroom
  · exact hspace (accepted_physical_iff.mp hkey).2.1
  · exact hspace hroom.plain

end Memcached
end ResponseCache
