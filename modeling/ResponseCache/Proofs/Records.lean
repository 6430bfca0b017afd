import ResponseCache.Proofs.Base64
import ResponseCache.Proofs.Decimals
import ResponseCache.Proofs.Documents
import ResponseCache.Record

/-!
# Records read back

Each part of an entry is read back from its document, and so is the whole entry when its times are
whole seconds. Only for the times does it matter what they are.
-/
namespace ResponseCache

namespace Json

theorem mapItems_eq (f : τ → υ) (js : List (Json τ)) : mapItems f js = js.map (·.map f) := by
  induction js with
  | nil => rfl
  | cons j js ih => rw [mapItems, ih, List.map_cons]

theorem mapMembers_eq (f : τ → υ) (ms : List (τ × Json τ)) :
    mapMembers f ms = ms.map fun m => (f m.1, m.2.map f) := by
  induction ms with
  | nil => rfl
  | cons m ms ih =>
    obtain ⟨name, j⟩ := m
    rw [mapMembers, ih, List.map_cons]

theorem itemsPrintable_iff {js : List (Json String)} :
    ItemsPrintable js ↔ ∀ j ∈ js, j.IsPrintable := by
  induction js with
  | nil => simp [ItemsPrintable]
  | cons j js ih => simp [ItemsPrintable, ih]

theorem natBelow?_nat {n bound : Nat} (h : n < bound) :
    natBelow? bound ((Json.nat n).map some) = some n := by
  show (Numeral.toNat? (.ofNat n) >>= _) = _
  rw [Numeral.toNat?_ofNat]
  exact if_pos h

/-- A value that may be absent is read back if it is not written as null itself. -/
theorem nullable?_option {α β : Type} {f : α → Json String} {g : α → β} {read : Document → Option β}
    {o : Option α} (hread : ∀ a ∈ o, read ((f a).map some) = some (g a))
    (hnull : ∀ a, (f a).map some ≠ .null) :
    nullable? read ((Json.option f o).map some) = some (o.map g) := by
  cases o with
  | none => rfl
  | some a =>
    have hread := hread a rfl
    show nullable? read ((f a).map some) = _
    unfold nullable?
    split
    · rename_i h
      exact absurd h (hnull a)
    · rw [hread]
      rfl

theorem mapM_eq_map {α β : Type} {f : α → Option β} {g : α → β} {as : List α}
    (h : ∀ a ∈ as, f a = some (g a)) : as.mapM f = some (as.map g) := by
  induction as with
  | nil => rfl
  | cons a as ih =>
    have hrest := ih fun b hb => h b (List.mem_cons_of_mem _ hb)
    rw [List.mapM_cons, h a List.mem_cons_self, hrest]
    rfl

namespace Fields

/-- An object with all the names in order is taken member by member. -/
theorem ofDocument?_object {names : List String} (hd : names.Nodup)
    {ms : List (String × Json String)} (hn : ms.map Prod.fst = names) (closed : Bool) :
    ofDocument? names closed ((Json.object ms).map some) =
      some ⟨ms.map fun m => (m.1, m.2.map some), false⟩ := by
  show ofObject? names closed (mapMembers some ms) = _
  rw [mapMembers_eq]
  have hall : (ms.map fun m => (some m.1, m.2.map some)).mapM (fun (name, v) => name.map (·, v)) =
      some (ms.map fun m => (m.1, m.2.map some)) := by
    rw [List.mapM_map]
    exact mapM_eq_map fun _ _ => rfl
  have hknown : (ms.map fun m => (m.1, m.2.map some)).filter (fun m => names.contains m.1) =
      ms.map fun m => (m.1, m.2.map some) := by
    refine List.filter_eq_self.mpr fun m hm => ?_
    obtain ⟨member, hmember, rfl⟩ := List.mem_map.mp hm
    rw [← hn]
    exact List.contains_iff_mem.mpr (List.mem_map_of_mem hmember)
  have hnames : (ms.map fun m => (m.1, m.2.map some)).map Prod.fst = names := by
    rw [← hn, List.map_map]
    rfl
  rw [ofObject?]
  simp only [hall, Option.bind_eq_bind, Option.bind_some, hknown, hnames]
  exact if_pos ⟨hd, .inr trivial⟩

theorem required_of_lookup {α : Type} {f : Fields} {name : String} {j : Document}
    (h : f.values.lookup name = some j) (read : Document → Option α) :
    f.required name read = read j := by
  rw [required, h]
  rfl

theorem orDefault_of_lookup {α : Type} {f : Fields} {name : String} {j : Document}
    (h : f.values.lookup name = some j) (read : Document → Option α) (default : α) :
    f.orDefault name read default = read j := by
  rw [orDefault, h]

theorem optional_of_lookup {α : Type} {f : Fields} {name : String} {j : Document}
    (h : f.values.lookup name = some j) (read : Document → Option α) :
    f.optional name read = nullable? read j := by
  rw [optional, h]

end Fields
end Json

open Json

private theorem some_bind {α β : Type} (a : α) (f : α → Option β) : (some a >>= f) = f a := rfl

namespace Duration

theorem ofDocument?_document (d : Duration) : ofDocument? (d.document.map some) = some d := by
  have hnames : names.Nodup := by decide
  have hfields : Fields.ofDocument? names true (d.document.map some) = some _ :=
    Fields.ofDocument?_object hnames rfl true
  have hseconds : natBelow? (2 ^ 64) ((Json.nat d.seconds).map some) = some d.seconds :=
    natBelow?_nat ((Nat.div_lt_iff_lt_mul (by decide)).mpr d.inRange)
  have hsubseconds : natBelow? (2 ^ 32) ((Json.nat d.subseconds).map some) = some d.subseconds :=
    natBelow?_nat (Nat.lt_trans (Nat.mod_lt _ (by decide)) (by decide))
  have hnanos : d.seconds * nanosPerSecond + d.subseconds = d.nanos := Nat.div_add_mod' ..
  rw [ofDocument?]
  rw [hfields, Option.bind_eq_bind, Option.bind_some, Fields.required_of_lookup rfl, hseconds,
    Option.bind_eq_bind, Option.bind_some, Fields.required_of_lookup rfl, hsubseconds,
    Option.bind_some, hnanos]
  exact dif_pos d.inRange

theorem isPrintable_document (d : Duration) : d.document.IsPrintable :=
  ⟨Numeral.isPrintable_ofNat _, Numeral.isPrintable_ofNat _, trivial⟩

end Duration

theorem Visibility.ofDocument?_text (v : Visibility) :
    ofDocument? ((Json.text v.text).map some) = some v := by
  cases v <;> rfl

namespace Policy

theorem ofDocument?_document (p : Policy) : ofDocument? (p.document.map some) = some p := by
  have hduration : ∀ o : Option Duration,
      nullable? Duration.ofDocument? ((Json.option Duration.document o).map some) = some o := by
    intro o
    rw [nullable?_option (g := id) (fun d _ => d.ofDocument?_document) nofun, Option.map_id]
    rfl
  have hbool : ∀ b : Bool, Json.bool? ((Json.bool b).map some) = some b := fun _ => rfl
  have hnames : names.Nodup := by decide
  have hfields : Fields.ofDocument? names false (p.document.map some) = some _ :=
    Fields.ofDocument?_object hnames rfl false
  rw [ofDocument?]
  rw [hfields, some_bind, Fields.optional_of_lookup rfl, hduration, some_bind,
    Fields.required_of_lookup rfl, Visibility.ofDocument?_text, some_bind,
    Fields.required_of_lookup rfl, hbool, some_bind, Fields.required_of_lookup rfl, hbool,
    some_bind, Fields.required_of_lookup rfl, hbool, some_bind, Fields.required_of_lookup rfl,
    hbool, some_bind, Fields.optional_of_lookup rfl, hduration, some_bind,
    Fields.optional_of_lookup rfl, hduration, some_bind]

theorem isPrintable_document (p : Policy) : p.document.IsPrintable := by
  have hduration : ∀ o : Option Duration, (Json.option Duration.document o).IsPrintable := by
    intro o
    cases o with
    | none => exact trivial
    | some d => exact d.isPrintable_document
  exact ⟨hduration _, trivial, trivial, trivial, trivial, trivial, hduration _,
    hduration _, trivial⟩

end Policy

namespace Headers

theorem ofDocument?_document (h : Headers) : ofDocument? (h.document.map some) = some h := by
  have hitems : h.document.map some = .array ((h.fields.map fun field =>
      Json.array [.text field.1, .text field.2]).map (·.map some)) := by
    rw [← Json.mapItems_eq]
    rfl
  rw [ofDocument?]
  rw [hitems]
  simp only [list?, List.mapM_map]
  rw [mapM_eq_map (g := id) ?_, List.map_id]
  · rfl
  · intro field _
    rfl

theorem isPrintable_document (h : Headers) : h.document.IsPrintable := by
  refine itemsPrintable_iff.mpr fun j hj => ?_
  obtain ⟨field, -, rfl⟩ := List.mem_map.mp hj
  exact ⟨trivial, trivial, trivial⟩

end Headers

theorem Status.ofDocument?_document (s : Status) : ofDocument? (s.document.map some) = some s := by
  have hcode : s.code < 2 ^ 16 := by cases s <;> decide
  rw [ofDocument?, document]
  rw [natBelow?_nat hcode]
  exact s.ofCode?_code

def Instant.IsWhole (t : Instant) (limit : Nat) : Prop :=
  ∃ n : Nat, n ≤ limit ∧ t.nanos = n * 1000000000

theorem Instant.isWhole_iff {t : Instant} {limit : Nat} :
    t.IsWhole limit ↔ 0 ≤ t.nanos ∧ t.nanos ≤ limit * 1000000000 ∧ t.nanos % 1000000000 = 0 := by
  constructor
  · rintro ⟨n, hn, ht⟩
    omega
  · rintro ⟨hnonneg, hle, hrest⟩
    exact ⟨(t.nanos / 1000000000).toNat, by omega, by omega⟩

instance (t : Instant) (limit : Nat) : Decidable (t.IsWhole limit) :=
  decidable_of_iff' _ Instant.isWhole_iff

namespace Record

theorem symbol_lt (n : Nat) : (Base64.symbol n).toNat < 0x80 := by
  have hsmall : ∀ k, k < 0x80 → (UInt8.ofNat k).toNat < 0x80 := by
    intro k hk
    rw [UInt8.toNat_ofNat']
    omega
  rw [Base64.symbol]
  apply hsmall
  repeat' split
  all_goals omega

theorem encode_lt {bs : Bytes} : ∀ b ∈ Base64.encode bs, b.toNat < 0x80 := by
  have hpad : Base64.pad.toNat < 0x80 := by decide
  induction bs using Base64.encode.induct with
  | case1 =>
    intro b hb
    cases hb
  | case2 a => simp [Base64.encode, symbol_lt, hpad]
  | case3 a b => simp [Base64.encode, symbol_lt, hpad]
  | case4 a b c bs ih => simpa [Base64.encode, symbol_lt] using ih

/-- The content is read back from its text. -/
theorem decode_contentText (bs : Bytes) :
    Base64.decode (Utf8.encode (contentText bs).toList) = .ok bs := by
  have hascii : ∀ c ∈ (Base64.encode bs).map fun b => Char.ofNat b.toNat, c.toNat < 0x80 := by
    intro c hc
    obtain ⟨b, hb, rfl⟩ := List.mem_map.mp hc
    rw [Text.toNat_ofNat_of_ascii (encode_lt b hb)]
    exact encode_lt b hb
  have hbytes : ∀ b ∈ Base64.encode bs, UInt8.ofNat (Char.ofNat b.toNat).toNat = b := by
    intro b hb
    rw [Text.toNat_ofNat_of_ascii (encode_lt b hb), UInt8.ofNat_toNat]
  rw [contentText, String.toList_ofList, Utf8.encode_of_ascii hascii, List.map_map]
  exact (congrArg Base64.decode (List.map_congr_left hbytes)).trans
    (by rw [List.map_id'', Base64.decode_encode]; exact fun _ => rfl)

theorem ofInstant_whole {t : Instant} {n : Nat} (hn : n < 2 ^ 53) (ht : t.nanos = n * 1000000000) :
    (ofInstant t).negative = false ∧ (ofInstant t).units = n * Binary64.unitsPerOne ∧
      (ofInstant t).isFinite = true := by
  apply Binary64.ofDuration_whole hn
  rw [Instant.since_nanos, ht, Instant.epoch, Int.sub_zero]
  rfl

variable {limit : Nat} {t : Instant}

/-- Whole seconds that a double can hold come back as the same point in time. -/
theorem toInstant_ofInstant (hlimit : limit < 2 ^ 53) (h : t.IsWhole limit) :
    toInstant (ofInstant t) = .ok t := by
  obtain ⟨n, hn, ht⟩ := h
  obtain ⟨hnegative, hunits, -⟩ := ofInstant_whole (Nat.lt_of_le_of_lt hn hlimit) ht
  have hsmall : ¬2 ^ 64 * Binary64.unitsPerOne ≤ (ofInstant t).units := by
    rw [hunits]
    refine Nat.not_le.mpr (Nat.mul_lt_mul_of_pos_right ?_ Binary64.unitsPerOne_pos)
    omega
  have hnanos : (ofInstant t).nanoseconds = n * nanosPerSecond := by
    rw [Binary64.nanoseconds, hunits, Nat.mul_right_comm, Nat.mul_comm]
    exact Binary64.roundQuotient_mul Binary64.unitsPerOne_pos _
  have hinstant : Instant.ofNanos? ((ofInstant t).nanoseconds : Int) = some t := by
    have hback : (((ofInstant t).nanoseconds : Nat) : Int) = t.nanos := by
      rw [hnanos, ht]
      rfl
    rw [hback]
    exact dif_pos ⟨t.notBefore, t.before⟩
  rw [toInstant]
  rw [hnegative, if_neg (by simp), if_neg hsmall, hinstant]

theorem double?_seconds (hlimit : limit < 2 ^ 53) (h : t.IsWhole limit) :
    double? ((seconds t).map some) = some (ofInstant t) := by
  obtain ⟨n, hn, ht⟩ := h
  obtain ⟨-, -, hfinite⟩ := ofInstant_whole (Nat.lt_of_le_of_lt hn hlimit) ht
  exact Binary64.ofDecimal_numeral hfinite doubleLayout

/-- A time that survives its way into a record and out of it again: the double that is written for
it is read back, and stands for the same time. -/
structure IsExact (t : Instant) : Prop where
  printed : double? ((seconds t).map some) = some (ofInstant t)
  converted : toInstant (ofInstant t) = .ok t

theorem isExact_of_isWhole (hlimit : limit < 2 ^ 53) (h : t.IsWhole limit) : IsExact t :=
  ⟨double?_seconds hlimit h, toInstant_ofInstant hlimit h⟩

theorem seconds_ne_null (t : Instant) : (seconds t).map some ≠ .null := by
  intro h
  rw [seconds, double, Json.map] at h
  cases h

theorem isPrintable_seconds (t : Instant) : (seconds t).IsPrintable :=
  Binary64.numeral_fraction_lt_ten doubleLayout (ofInstant t)

theorem isPrintable_document (e : Entry) : (document e).IsPrintable := by
  have hexpires : (Json.option seconds e.expiresAt).IsPrintable := by
    cases e.expiresAt with
    | none => exact trivial
    | some t => exact isPrintable_seconds t
  exact ⟨trivial, trivial, hexpires, isPrintable_seconds _, Numeral.isPrintable_ofNat _,
    e.headers.isPrintable_document, e.policy.isPrintable_document, trivial⟩

def partsOf (e : Entry) : Parts where
  etag := e.etag
  content := contentText e.content
  expiresAt := e.expiresAt.map ofInstant
  storedAt := ofInstant e.storedAt
  status := e.status
  headers := e.headers
  policy := e.policy

theorem ofDocument?_document {e : Entry} (hstored : IsExact e.storedAt)
    (hexpires : ∀ t ∈ e.expiresAt, IsExact t) :
    Parts.ofDocument? ((document e).map some) = some (partsOf e) := by
  have htext : ∀ s : String, text? ((Json.text s).map some) = some s := fun _ => rfl
  have hexpiry : nullable? double? ((Json.option seconds e.expiresAt).map some) =
      some (e.expiresAt.map ofInstant) :=
    nullable?_option (fun t ht => (hexpires t ht).printed) seconds_ne_null
  have hnames : names.Nodup := by decide
  have hfields : Fields.ofDocument? names false ((document e).map some) = some _ :=
    Fields.ofDocument?_object hnames rfl false
  rw [Parts.ofDocument?]
  rw [hfields, some_bind, Fields.required_of_lookup rfl, htext, some_bind,
    Fields.required_of_lookup rfl, htext, some_bind, Fields.optional_of_lookup rfl, hexpiry,
    some_bind, Fields.orDefault_of_lookup rfl, hstored.printed, some_bind,
    Fields.orDefault_of_lookup rfl, e.status.ofDocument?_document, some_bind,
    Fields.orDefault_of_lookup rfl, e.headers.ofDocument?_document, some_bind,
    Fields.orDefault_of_lookup rfl, e.policy.ofDocument?_document]
  rfl

theorem entry_partsOf {e : Entry} (hstored : IsExact e.storedAt)
    (hexpires : ∀ t ∈ e.expiresAt, IsExact t) : (partsOf e).entry = .ok e := by
  have hexpiry : expiry (partsOf e).expiresAt = .ok e.expiresAt := by
    rw [partsOf]
    cases h : e.expiresAt with
    | none => rfl
    | some t =>
      show (toInstant (ofInstant t)).map some = _
      rw [(hexpires t h).converted]
      rfl
  have hstore : toInstant (partsOf e).storedAt = .ok e.storedAt := hstored.converted
  have hcontent : Base64.decode (Utf8.encode (partsOf e).content.toList) = .ok e.content :=
    decode_contentText e.content
  rw [Parts.entry]
  rw [hcontent, hexpiry, hstore]
  rfl

/-- An entry is read back from its record if its times are. -/
theorem decode_encode_of_isExact {e : Entry} (hstored : IsExact e.storedAt)
    (hexpires : ∀ t ∈ e.expiresAt, IsExact t) : decode (encode e) = .ok e := by
  rw [decode, encode]
  rw [ofBytes?_encode_compact (isPrintable_document e), Option.bind_some,
    ofDocument?_document hstored hexpires]
  simp only [entry_partsOf hstored hexpires]

/-- An entry is read back from its record if its times are whole seconds that a double can hold. -/
theorem decode_encode {e : Entry} (hlimit : limit < 2 ^ 53) (hstored : e.storedAt.IsWhole limit)
    (hexpires : ∀ t ∈ e.expiresAt, t.IsWhole limit) : decode (encode e) = .ok e :=
  decode_encode_of_isExact (isExact_of_isWhole hlimit hstored) fun t ht =>
    isExact_of_isWhole hlimit (hexpires t ht)

/-- Whatever its times, the parts of a record that is read at all are those that were written, but
for the times. -/
theorem ofDocument?_document_eq_some {e : Entry} {p : Parts}
    (h : Parts.ofDocument? ((document e).map some) = some p) :
    ∃ expiresAt storedAt, p = { partsOf e with expiresAt, storedAt } := by
  have htext : ∀ s : String, text? ((Json.text s).map some) = some s := fun _ => rfl
  have hnames : names.Nodup := by decide
  have hfields : Fields.ofDocument? names false ((document e).map some) = some _ :=
    Fields.ofDocument?_object hnames rfl false
  rw [Parts.ofDocument?] at h
  rw [hfields, some_bind, Fields.required_of_lookup rfl, htext, some_bind,
    Fields.required_of_lookup rfl, htext, some_bind, Fields.optional_of_lookup rfl] at h
  obtain ⟨expiresAt, -, h⟩ := Option.bind_eq_some_iff.mp h
  rw [Fields.orDefault_of_lookup rfl] at h
  obtain ⟨storedAt, -, h⟩ := Option.bind_eq_some_iff.mp h
  rw [Fields.orDefault_of_lookup rfl, e.status.ofDocument?_document, some_bind,
    Fields.orDefault_of_lookup rfl, e.headers.ofDocument?_document, some_bind,
    Fields.orDefault_of_lookup rfl, e.policy.ofDocument?_document] at h
  exact ⟨expiresAt, storedAt, (Option.some.inj h).symm⟩

/-- Whatever its times, an entry that is read back from its record is the one that was written, but
for the times. -/
theorem eq_of_decode_encode {e found : Entry} (h : decode (encode e) = .ok found) :
    ∃ expiresAt storedAt, found = { e with expiresAt, storedAt } := by
  rw [decode, encode, ofBytes?_encode_compact (isPrintable_document e), Option.bind_some] at h
  cases hparts : Parts.ofDocument? ((document e).map some) with
  | none =>
    rw [hparts] at h
    cases h
  | some p =>
    obtain ⟨expires, stored, rfl⟩ := ofDocument?_document_eq_some hparts
    rw [hparts] at h
    simp only [Parts.entry, partsOf, decode_contentText] at h
    cases hexpires : expiry expires with
    | error fault =>
      rw [hexpires] at h
      cases h
    | ok expiresAt =>
      cases hstored : toInstant stored with
      | error fault =>
        rw [hexpires, hstored] at h
        cases h
      | ok storedAt =>
        rw [hexpires, hstored] at h
        exact ⟨expiresAt, storedAt, (Except.ok.inj h).symm⟩

/-- Whatever its texts, content, headers and policy, an entry stored in the first 2^40 seconds since
the epoch survives its record. -/
theorem decode_encode_early (e : Entry) (hstored : e.storedAt.IsWhole (2 ^ 40))
    (hexpires : ∀ t ∈ e.expiresAt, t.IsWhole (2 ^ 40)) : decode (encode e) = .ok e :=
  decode_encode (by decide) hstored hexpires

/-- Quotes, control and other characters, bytes that are no text and the longest duration. -/
theorem decode_encode_unusual :
    let e : Entry :=
      { etag := "W/\"\\\n\u00e9\u2028\"", content := [0, 0xff, 0x22, 0x80], status := .found
        headers := ⟨[("X-\u0001", "a\tb"), ("x-\u0001", "")]⟩
        storedAt := ⟨1099511627776 * 1000000000, by decide, by decide⟩
        expiresAt := some ⟨0, by decide, by decide⟩
        policy := { ttl := some .longest, staleIfError := some .zero } }
    decode (encode e) = .ok e := by
  intro e
  apply decode_encode_early e ⟨2 ^ 40, Nat.le_refl _, rfl⟩
  rintro t ⟨⟩
  exact ⟨0, by decide, rfl⟩

end Record
end ResponseCache
