import ResponseCache.Key
import ResponseCache.Proofs.Utf8

/-!
# What a key says about its request

The parts of a derived key are the ones it was made of, and equal keys come from equal methods,
hosts and paths and from the same set of query parameters.
-/
namespace ResponseCache.Key

theorem cutAtBars_cons {c : Char} (h : c ≠ '|') (cs : List Char) :
    cutAtBars (c :: cs) = match cutAtBars cs with
      | [] => [[c]]
      | part :: parts => (c :: part) :: parts := by
  have hnot : ∀ rest, c = '|' → cs = '|' :: '|' :: rest → False := fun _ hc _ => h hc
  exact cutAtBars.eq_2 c cs hnot

theorem cutAtBars_append {a : List Char} (h : '|' ∉ a) (rest : List Char) :
    cutAtBars (a ++ (bars ++ rest)) = a :: cutAtBars rest := by
  induction a with
  | nil => rfl
  | cons c a ih =>
    obtain ⟨hc, ha⟩ : '|' ≠ c ∧ '|' ∉ a := by simpa using h
    rw [List.cons_append, cutAtBars_cons hc.symm, ih ha]

theorem cutAtBars_of_not_mem {a : List Char} (h : '|' ∉ a) : cutAtBars a = [a] := by
  induction a with
  | nil => rfl
  | cons c a ih =>
    obtain ⟨hc, ha⟩ : '|' ≠ c ∧ '|' ∉ a := by simpa using h
    rw [cutAtBars_cons hc.symm, ih ha]

theorem bar_not_mem_encodePart (s : String) : '|' ∉ encodePart s :=
  Percent.not_mem_encode (by decide) (by decide) (by decide) (by decide) _

/-- A character that is escaped in queries, and of which no escape is made. -/
private theorem not_mem_encodeText {c : Char} (hc : c = '|' ∨ c = '&' ∨ c = '=') (s : String) :
    c ∉ Percent.encode escapedInQuery s.toList := by
  rcases hc with rfl | rfl | rfl <;>
    exact Percent.not_mem_encode (by decide) (by decide) (by decide) (by decide) _

theorem toList_encodePair (p : String × String) :
    (encodePair p).toList =
      Percent.encode escapedInQuery p.1.toList ++ '=' ::
        Percent.encode escapedInQuery p.2.toList := by
  simp [encodePair]

theorem not_mem_encodePair {c : Char} (hc : c = '|' ∨ c = '&') (p : String × String) :
    c ∉ (encodePair p).toList := by
  have h : c = '|' ∨ c = '&' ∨ c = '=' := hc.imp_right .inl
  have hne : c ≠ '=' := by rcases hc with rfl | rfl <;> decide
  rw [toList_encodePair]
  simp [not_mem_encodeText h, hne]

private theorem not_mem_intercalate {c sep : Char} {parts : List (List Char)} (hs : c ≠ sep)
    (hp : ∀ a ∈ parts, c ∉ a) : c ∉ [sep].intercalate parts := by
  induction parts with
  | nil => simp
  | cons a parts ih =>
    have ha := hp a List.mem_cons_self
    have hparts := ih fun b hb => hp b (List.mem_cons_of_mem _ hb)
    cases parts with
    | nil => simpa using ha
    | cons b parts => simp [ha, hs, hparts]

/-- What stands between the ampersands of a query. -/
theorem mem_pairs_iff {query : List (String × String)} {a : List Char} :
    a ∈ (Ascending.ofList (query.map encodePair)).map String.toList ↔
      ∃ p ∈ query, (encodePair p).toList = a := by
  simp only [List.mem_map, Ascending.mem_ofList]
  constructor
  · rintro ⟨s, ⟨p, hp, rfl⟩, rfl⟩
    exact ⟨p, hp, rfl⟩
  · rintro ⟨p, hp, rfl⟩
    exact ⟨encodePair p, ⟨p, hp, rfl⟩, rfl⟩

theorem bar_not_mem_encodeQuery (query : List (String × String)) : '|' ∉ encodeQuery query := by
  apply not_mem_intercalate (by decide)
  intro a ha
  obtain ⟨p, -, rfl⟩ := mem_pairs_iff.mp ha
  exact not_mem_encodePair (.inl rfl) p

theorem decodePart_encodePart (s : String) : decodePart (encodePart s) = s := by
  rw [decodePart, encodePart, Percent.decode_encode (by decide), String.ofList_toList]

theorem parts_derive (method : Method) (host path : String) (query : List (String × String)) :
    (derive method host path query).parts =
      { method := method.text, host, path, query := String.ofList (encodeQuery query) } := by
  have hcut : cutAtBars (derive method host path query).text.toList =
      [encodePart method.text, encodePart host, encodePart path, encodeQuery query] := by
    simp only [derive, String.toList_ofList, List.append_assoc]
    rw [cutAtBars_append (bar_not_mem_encodePart _), cutAtBars_append (bar_not_mem_encodePart _),
      cutAtBars_append (bar_not_mem_encodePart _), cutAtBars_of_not_mem (bar_not_mem_encodeQuery _)]
  rw [parts, hcut]
  simp only [decodePart_encodePart]

theorem encodePair_inj {p p' : String × String} (h : encodePair p = encodePair p') : p = p' := by
  have hs := congrArg (fun s : String => Text.splitOnce '=' s.toList) h
  simp only [toList_encodePair, Text.splitOnce_append (not_mem_encodeText (.inr (.inr rfl)) _),
    Option.some.injEq, Prod.mk.injEq] at hs
  have hn := String.toList_inj.mp (Percent.encode_inj (by decide) hs.1)
  have hv := String.toList_inj.mp (Percent.encode_inj (by decide) hs.2)
  exact Prod.ext hn hv

/-- The encoded parameters can be read off a query that has any. -/
theorem splitOn_encodeQuery {query : List (String × String)} (h : query ≠ []) :
    (encodeQuery query).splitOn '&' =
      (Ascending.ofList (query.map encodePair)).map String.toList := by
  apply List.splitOn_intercalate
  · intro a ha
    obtain ⟨p, -, rfl⟩ := mem_pairs_iff.mp ha
    exact not_mem_encodePair (.inr rfl) p
  · intro hnil
    obtain ⟨p, query, rfl⟩ := List.exists_cons_of_ne_nil h
    have hp := mem_pairs_iff.mpr ⟨p, (List.mem_cons_self : p ∈ p :: query), rfl⟩
    rw [hnil] at hp
    cases hp

theorem encodeQuery_eq_nil_iff {query : List (String × String)} :
    encodeQuery query = [] ↔ query = [] := by
  constructor
  · intro h
    refine Classical.byContradiction fun hne => ?_
    obtain ⟨p, rest, rfl⟩ := List.exists_cons_of_ne_nil hne
    have hsplit := splitOn_encodeQuery hne
    rw [h] at hsplit
    have hp := mem_pairs_iff.mpr ⟨p, (List.mem_cons_self : p ∈ p :: rest), rfl⟩
    rw [← hsplit, toList_encodePair] at hp
    simp at hp
  · rintro rfl
    rfl

/-- Encoded queries agree only if they have the same parameters, order and repetition aside. -/
theorem mem_iff_of_encodeQuery_eq {query query' : List (String × String)}
    (h : encodeQuery query = encodeQuery query') (p : String × String) :
    p ∈ query ↔ p ∈ query' := by
  by_cases hq : query = []
  · have hq' : query' = [] := encodeQuery_eq_nil_iff.mp (by rw [← h, hq]; rfl)
    rw [hq, hq']
  · have hq' : query' ≠ [] := by
      rintro rfl
      exact hq (encodeQuery_eq_nil_iff.mp h)
    have hs := splitOn_encodeQuery hq
    rw [h, splitOn_encodeQuery hq'] at hs
    have hmem : ∀ q : List (String × String), p ∈ q ↔
        (encodePair p).toList ∈ (Ascending.ofList (q.map encodePair)).map String.toList := by
      intro q
      rw [mem_pairs_iff]
      exact ⟨fun hp => ⟨p, hp, rfl⟩,
        fun ⟨p', hp', he⟩ => encodePair_inj (String.toList_inj.mp he) ▸ hp'⟩
    rw [hmem, hmem, hs]

/-- Requests with one key have the same method text, host and path and the same set of
parameters. -/
theorem derive_inj {method method' : Method} {host host' path path' : String}
    {query query' : List (String × String)}
    (h : derive method host path query = derive method' host' path' query') :
    method.text = method'.text ∧ host = host' ∧ path = path' ∧ ∀ p, p ∈ query ↔ p ∈ query' := by
  have hp := congrArg parts h
  simp only [parts_derive, Parts.mk.injEq] at hp
  obtain ⟨hm, hh, hpath, hq⟩ := hp
  exact ⟨hm, hh, hpath, mem_iff_of_encodeQuery_eq (String.ofList_injective hq)⟩

theorem encodeQuery_congr {query query' : List (String × String)}
    (h : ∀ p, p ∈ query ↔ p ∈ query') : encodeQuery query = encodeQuery query' := by
  have hsame : Ascending.ofList (query.map encodePair) =
      Ascending.ofList (query'.map encodePair) := by
    apply Ascending.ofList_congr
    intro s
    simp only [List.mem_map, h]
  rw [encodeQuery, encodeQuery, hsame]

theorem derive_congr {query query' : List (String × String)} (h : ∀ p, p ∈ query ↔ p ∈ query')
    (method : Method) (host path : String) :
    derive method host path query = derive method host path query' := by
  rw [derive, derive, encodeQuery_congr h]

/-- A key stands for a method text, a host, a path and a set of parameters, whatever characters are
in them: neither the order of the parameters nor how often each is given has a part in it. -/
theorem derive_eq_derive_iff {method method' : Method} {host host' path path' : String}
    {query query' : List (String × String)} :
    derive method host path query = derive method' host' path' query' ↔
      method.text = method'.text ∧ host = host' ∧ path = path' ∧ ∀ p, p ∈ query ↔ p ∈ query' := by
  constructor
  · exact derive_inj
  · rintro ⟨hmethod, rfl, rfl, hquery⟩
    rw [derive, derive, hmethod, encodeQuery_congr hquery]

/-- Bars, signs that join parameters and escapes inside the parts, and an empty query against one
with an empty pair. -/
example :
    derive .get "h" "/" [("a", "1"), ("b", "2"), ("a", "1")] =
        derive .get "h" "/" [("b", "2"), ("a", "1")] ∧
      derive .get "h|||/" "" [] ≠ derive .get "h" "/|||" [] ∧
      derive .get "h" "/" [("a", "1&b=2")] ≠ derive .get "h" "/" [("a", "1"), ("b", "2")] ∧
      derive .get "h" "/%7C" [] ≠ derive .get "h" "/|" [] ∧
      derive .get "h" "/" [] ≠ derive .get "h" "/" [("", "")] := by
  decide +kernel

theorem toList_intercalate_pairs (query : List (String × String)) :
    ("&".intercalate (Ascending.ofList (query.map encodePair))).toList = encodeQuery query := by
  rw [String.toList_intercalate, encodeQuery]
  rfl

/-- Whatever characters are in them, method, host and path are read back from a key, and the query
is read as the encoded parameters, each once and in ascending order, with an ampersand between any
two. It is empty only if there are none. -/
theorem parts_of_derived (method : Method) (host path : String) (query : List (String × String)) :
    ∃ pairs : List String,
      (derive method host path query).parts =
        { method := method.text, host, path, query := "&".intercalate pairs } ∧
      (∀ s, s ∈ pairs ↔ ∃ p ∈ query, s = encodePair p) ∧
      pairs.Pairwise (fun a b => Utf8.encode a.toList < Utf8.encode b.toList) ∧ pairs.Nodup ∧
      ((derive method host path query).parts.query = "" ↔ query = []) := by
  have hascending := Ascending.pairwise_ofList (query.map encodePair)
  refine ⟨Ascending.ofList (query.map encodePair), ?_, ?_, ?_, ?_, ?_⟩
  · rw [parts_derive, ← toList_intercalate_pairs, String.ofList_toList]
  · intro s
    simp only [Ascending.mem_ofList, List.mem_map, eq_comm]
  · exact hascending.imp Utf8.encode_lt
  · exact hascending.imp text_ne_of_lt
  · rw [parts_derive, ← encodeQuery_eq_nil_iff]
    exact String.ofList_eq_empty_iff

/-- Bars at the ends of parts, an empty host, what looks like an escape, and characters of two
bytes. -/
example : (derive (.custom "|GET") "" "/é%7C|" [("b", "&="), ("", ""), ("b", "&=")]).parts =
    { method := "|GET", host := "", path := "/é%7C|", query := "=&b=%26%3D" } := by decide +kernel

end ResponseCache.Key
