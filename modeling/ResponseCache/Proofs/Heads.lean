import ResponseCache.Message.Head
import ResponseCache.Proofs.Keys
import ResponseCache.Proofs.Utf8

/-!
# Heads that share a key

Two readings between the bytes of a head and its key lose something: bytes that spell no text are
replaced in parameters, and a field whose value is no text is left out. Apart from that, heads share
a key only if they ask for the same thing.
-/
namespace ResponseCache

namespace Method

theorem ofText_text_of_mem : ∀ m ∈ standard, ofText m.text = m := by decide

/-- A method is known by its text. -/
theorem ofText_text (s : String) : ofText (ofText s).text = ofText s := by
  cases h : standard.find? fun m => m.text.toList == Text.upper s with
  | none =>
    have hcustom : ofText s = custom s := by rw [ofText, h, Option.getD_none]
    rw [hcustom, text, hcustom]
  | some m =>
    have hm : ofText s = m := by rw [ofText, h, Option.getD_some]
    rw [hm, ofText_text_of_mem m (List.mem_of_find?_eq_some h)]

theorem ofText_eq_of_text_eq {s s' : String} (h : (ofText s).text = (ofText s').text) :
    ofText s = ofText s' := by
  rw [← ofText_text s, h, ofText_text]

end Method

namespace Query

/-- The bytes that a name or a value stands for: a plus sign is a space and an escape is its
byte. -/
def bytes (cs : List Char) : Bytes :=
  Percent.decodeBytes (Utf8.encode (cs.map fun c => if c = '+' then ' ' else c))

def bytePair (segment : List Char) : Bytes × Bytes :=
  match Text.splitOnce '=' segment with
  | some (name, value) => (bytes name, bytes value)
  | none => (bytes segment, [])

def bytePairs (cs : List Char) : List (Bytes × Bytes) :=
  ((cs.splitOn '&').filter (!·.isEmpty)).map bytePair

/-- A parameter as text, with replacements for what is none. -/
def shown (p : Bytes × Bytes) : String × String :=
  (String.ofList (Utf8.decodeLossy p.1), String.ofList (Utf8.decodeLossy p.2))

theorem shown_bytePair (segment : List Char) : shown (bytePair segment) = pair segment := by
  rw [bytePair, pair]
  cases Text.splitOnce '=' segment with
  | none => rfl
  | some parts => rfl

theorem map_shown_bytePairs (cs : List Char) : (bytePairs cs).map shown = read cs := by
  rw [bytePairs, read, List.map_map]
  exact List.map_congr_left fun segment _ => shown_bytePair segment

def IsText (p : Bytes × Bytes) : Prop := Utf8.IsText p.1 ∧ Utf8.IsText p.2

theorem shown_inj {p p' : Bytes × Bytes} (hp : IsText p) (hp' : IsText p')
    (h : shown p = shown p') : p = p' := by
  obtain ⟨hname, hvalue⟩ := Prod.mk.inj h
  have hsame : ∀ {bs bs' : Bytes}, Utf8.IsText bs → Utf8.IsText bs' →
      String.ofList (Utf8.decodeLossy bs) = String.ofList (Utf8.decodeLossy bs') → bs = bs' := by
    intro bs bs' hbs hbs' heq
    rw [← Utf8.encode_decodeLossy hbs, String.ofList_injective heq, Utf8.encode_decodeLossy hbs']
  exact Prod.ext (hsame hp.1 hp'.1 hname) (hsame hp.2 hp'.2 hvalue)

end Query

namespace Head

def host? (h : Head) : Option Bytes :=
  (h.fields.find? fun f => Text.sameName (ascii f.1) "host").map (·.2)

def path (h : Head) : List Char := h.pathAndQuery.1

def parameters (h : Head) : List (Bytes × Bytes) := Query.bytePairs h.pathAndQuery.2

/-- There is no Host field, or the value of the first one is text. -/
def HasTextHost (h : Head) : Prop := ∀ value ∈ h.host?, Utf8.IsText value

/-- A host that is text is taken byte for byte, and none is the empty one. -/
theorem encode_host {h : Head} (hhost : h.HasTextHost) :
    Utf8.encode h.request.host.toList = h.host?.getD [] := by
  obtain ⟨method, target, fields⟩ := h
  show Utf8.encode ((((headers ⟨method, target, fields⟩).get? "host").getD "").toList) = _
  simp only [HasTextHost, host?, headers, Headers.get?] at *
  induction fields with
  | nil => rfl
  | cons field fields ih =>
    obtain ⟨name, value⟩ := field
    cases hname : Text.sameName (ascii name) "host" with
    | true =>
      obtain ⟨cs, rfl⟩ := Utf8.isText_iff.mp (hhost value (by simp [hname]))
      simp [Utf8.decode?_eq_some_iff.mpr rfl, Headers.named, hname]
    | false =>
      have hrest := ih (by simpa [hname] using hhost)
      cases hvalue : Utf8.decode? value with
      | none => simpa [hvalue, hname] using hrest
      | some cs => simpa [hvalue, hname, Headers.named] using hrest

/-- What the text of two heads has in common if they share a key. -/
structure AgreesWith (h h' : Head) : Prop where
  method : Method.ofText (ascii h.method) = Method.ofText (ascii h'.method)
  /-- A host that is no text is not spoken of, and none counts as the empty one. -/
  host : h.HasTextHost → h'.HasTextHost → h.host?.getD [] = h'.host?.getD []
  path : h.path = h'.path
  shown : ∀ p, p ∈ h.parameters.map Query.shown ↔ p ∈ h'.parameters.map Query.shown
  parameters : (∀ p ∈ h.parameters, Query.IsText p) → (∀ p ∈ h'.parameters, Query.IsText p) →
    ∀ p, p ∈ h.parameters ↔ p ∈ h'.parameters

private theorem mem_of_shown {ps ps' : List (Bytes × Bytes)} (hps : ∀ p ∈ ps, Query.IsText p)
    (hps' : ∀ p ∈ ps', Query.IsText p) (h : ∀ p, p ∈ ps.map Query.shown → p ∈ ps'.map Query.shown) :
    ∀ p ∈ ps, p ∈ ps' := by
  intro p hp
  obtain ⟨p', hp', heq⟩ := List.mem_map.mp (h _ (List.mem_map_of_mem hp))
  rw [← Query.shown_inj (hps' p' hp') (hps p hp) heq]
  exact hp'

theorem agreesWith_of_key {h h' : Head}
    (hkey : Key.ofRequest h.request = Key.ofRequest h'.request) : h.AgreesWith h' := by
  obtain ⟨hmethod, hhost, hpath, hquery⟩ := Key.derive_inj hkey
  have hshown : ∀ p, p ∈ h.parameters.map Query.shown ↔ p ∈ h'.parameters.map Query.shown := by
    intro p
    rw [parameters, parameters, Query.map_shown_bytePairs, Query.map_shown_bytePairs]
    exact hquery p
  constructor
  · exact Method.ofText_eq_of_text_eq hmethod
  · intro htext htext'
    rw [← encode_host htext, ← encode_host htext', hhost]
  · exact String.ofList_injective hpath
  · exact hshown
  · intro htext htext' p
    exact ⟨mem_of_shown htext htext' (fun q => (hshown q).mp) p,
      mem_of_shown htext' htext (fun q => (hshown q).mpr) p⟩

structure IsSame (h h' : Head) : Prop where
  method : Method.ofText (ascii h.method) = Method.ofText (ascii h'.method)
  host : h.host? = h'.host?
  path : h.path = h'.path
  parameters : ∀ p, p ∈ h.parameters ↔ p ∈ h'.parameters

end Head

namespace Request

theorem ofBytes_eq_ok {bs : Bytes} {r : Request} (h : (ofBytes bs).toOption = some r) :
    ofBytes bs = .ok r := by
  cases hr : ofBytes bs with
  | error e =>
    rw [hr] at h
    cases h
  | ok r' =>
    rw [hr] at h
    rw [Option.some.inj h]

theorem exists_head {bs : Bytes} {r : Request} (h : ofBytes bs = .ok r) :
    ∃ head, Head.ofBytes bs = .ok head ∧ head.request = r := by
  rw [ofBytes] at h
  cases hhead : Head.ofBytes bs with
  | error e =>
    rw [hhead] at h
    cases h
  | ok head =>
    rw [hhead] at h
    exact ⟨head, rfl, Except.ok.inj h⟩

/-- Two heads that are accepted and share a key have the same method and path, hosts that are the
same bytes unless one is no text, and the same set of parameters: as they are shown in the requests,
and byte for byte when all of them are text. -/
theorem heads_agree_of_key_eq {bs bs' : Bytes} {r r' : Request} (hr : ofBytes bs = .ok r)
    (hr' : ofBytes bs' = .ok r') (hkey : Key.ofRequest r = Key.ofRequest r') :
    ∃ h h' : Head, Head.ofBytes bs = .ok h ∧ Head.ofBytes bs' = .ok h' ∧ h.AgreesWith h' := by
  obtain ⟨h, hh, rfl⟩ := exists_head hr
  obtain ⟨h', hh', rfl⟩ := exists_head hr'
  exact ⟨h, h', hh, hh', Head.agreesWith_of_key hkey⟩

/-- Two spellings of the same parameters in different orders, one of them given twice. -/
theorem heads_agree_of_key_eq_spellings :
    let bs := Utf8.encode "GET /s?q=a+b&t=%C3%A9 HTTP/1.1\r\nHost: h:80\r\n\r\n".toList
    let bs' :=
      Utf8.encode "get /s?t=\u00e9&&q=a%20b&t=%c3%a9 HTTP/1.0\nhost: h:80\nHost: i\n\n".toList
    ∃ h h' : Head, Head.ofBytes bs = .ok h ∧ Head.ofBytes bs' = .ok h' ∧ h.AgreesWith h' := by
  intro bs bs'
  let r : Request :=
    { host := "h:80", path := "/s", query := [("q", "a b"), ("t", "\u00e9")],
      headers := ⟨[("Host", "h:80")]⟩ }
  let r' : Request :=
    { host := "h:80", path := "/s", query := [("t", "\u00e9"), ("q", "a b"), ("t", "\u00e9")]
      headers := ⟨[("host", "h:80"), ("Host", "i")]⟩ }
  have hr : ofBytes bs = .ok r := ofBytes_eq_ok (by decide +kernel)
  have hr' : ofBytes bs' = .ok r' := ofBytes_eq_ok (by decide +kernel)
  exact heads_agree_of_key_eq hr hr' (by decide +kernel)

/-- Escapes that spell no text are replaced, so that heads share a key which differ in them. -/
theorem not_isSame_of_key_eq :
    ¬∀ (bs bs' : Bytes) (r r' : Request), ofBytes bs = .ok r → ofBytes bs' = .ok r' →
      Key.ofRequest r = Key.ofRequest r' →
        ∃ h h' : Head, Head.ofBytes bs = .ok h ∧ Head.ofBytes bs' = .ok h' ∧ h.IsSame h' := by
  intro hall
  let bs := Utf8.encode "GET /s?q=%FF HTTP/1.1\r\nHost: h\r\n\r\n".toList
  let bs' := Utf8.encode "GET /s?q=%FE HTTP/1.1\r\nHost: h\r\n\r\n".toList
  let r : Request :=
    { host := "h", path := "/s", query := [("q", "\uFFFD")], headers := ⟨[("Host", "h")]⟩ }
  have hr : ofBytes bs = .ok r := ofBytes_eq_ok (by decide +kernel)
  have hr' : ofBytes bs' = .ok r := ofBytes_eq_ok (by decide +kernel)
  have hparameters : (Head.ofBytes bs).toOption.map Head.parameters = some [([0x71], [0xff])] := by
    decide +kernel
  have hparameters' : (Head.ofBytes bs').toOption.map Head.parameters =
      some [([0x71], [0xfe])] := by decide +kernel
  obtain ⟨h, h', hh, hh', hsame⟩ := hall bs bs' r r hr hr' rfl
  rw [hh] at hparameters
  rw [hh'] at hparameters'
  have hmem := hsame.parameters ([0x71], [0xff])
  rw [Option.some.inj hparameters, Option.some.inj hparameters'] at hmem
  exact absurd (hmem.mp List.mem_cons_self) (by decide)

end Request
end ResponseCache
