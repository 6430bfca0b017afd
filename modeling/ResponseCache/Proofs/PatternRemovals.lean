import ResponseCache.Proofs.PathSpellings

/-!
# Patterns that all stores read alike

Stores in memory and key-value stores have pattern dialects of their own, which differ in brackets,
in backslashes and in stars side by side. A plain pattern has none of these. In both dialects it
reads character by character into the same steps, so a removal by a plain pattern takes the same
keys from both kinds of store, although one looks at keys without their namespace and the other at
whole names, through a scan.
-/
namespace ResponseCache

namespace Pattern

/-- Ordinary characters, question marks, and stars that do not stand side by side. -/
structure IsPlain (pattern : List Char) : Prop where
  ordinary : ∀ c ∈ pattern, c ≠ '[' ∧ c ≠ ']' ∧ c ≠ '\\'
  apart : ¬['*', '*'] <:+: pattern

/-- A pattern stands for a whole text: a star for any run of characters, a question mark for any
one, and every other character for itself. -/
inductive Matches : List Char → List Char → Prop
  | nil : Matches [] []
  | star {pattern rest : List Char} (run : List Char) : Matches pattern rest →
    Matches ('*' :: pattern) (run ++ rest)
  | mark {pattern rest : List Char} (c : Char) : Matches pattern rest →
    Matches ('?' :: pattern) (c :: rest)
  | same {pattern rest : List Char} {c : Char} : c ≠ '*' → c ≠ '?' → Matches pattern rest →
    Matches (c :: pattern) (c :: rest)

def plainStep (c : Char) : Step :=
  if c = '*' then .run fun _ => true else if c = '?' then .one fun _ => true else .one (· == c)

theorem matches_star_iff {pattern text : List Char} :
    Matches ('*' :: pattern) text ↔ ∃ run rest, text = run ++ rest ∧ Matches pattern rest := by
  constructor
  · intro h
    cases h with
    | star run h => exact ⟨run, _, rfl, h⟩
    | same h => exact absurd rfl h
  · rintro ⟨run, rest, rfl, h⟩
    exact .star run h

theorem matches_mark_iff {pattern text : List Char} :
    Matches ('?' :: pattern) text ↔ ∃ c rest, text = c :: rest ∧ Matches pattern rest := by
  constructor
  · intro h
    cases h with
    | mark c h => exact ⟨c, _, rfl, h⟩
    | same _ h => exact absurd rfl h
  · rintro ⟨c, rest, rfl, h⟩
    exact .mark c h

theorem matches_same_iff {c : Char} {pattern text : List Char} (hstar : c ≠ '*') (hmark : c ≠ '?') :
    Matches (c :: pattern) text ↔ ∃ rest, text = c :: rest ∧ Matches pattern rest := by
  constructor
  · intro h
    cases h with
    | star => exact absurd rfl hstar
    | mark => exact absurd rfl hmark
    | same _ _ h => exact ⟨_, rfl, h⟩
  · rintro ⟨rest, rfl, h⟩
    exact .same hstar hmark h

theorem accepts_plain_iff {pattern text : List Char} :
    accepts (pattern.map plainStep) text = true ↔ Matches pattern text := by
  induction pattern generalizing text with
  | nil =>
    rw [List.map_nil, accepts, List.isEmpty_iff]
    constructor
    · rintro rfl
      exact .nil
    · intro h
      cases h
      rfl
  | cons c pattern ih =>
    by_cases hstar : c = '*'
    · subst hstar
      simp [plainStep, accepts_anyRun_iff, matches_star_iff, ih]
    by_cases hmark : c = '?'
    · subst hmark
      simp [plainStep, accepts_one_iff, matches_mark_iff, ih]
    · simp [plainStep, hstar, hmark, accepts_same_iff, matches_same_iff, ih]

instance (pattern text : List Char) : Decidable (Matches pattern text) :=
  decidable_of_iff (isMatch (pattern.map plainStep) text = true)
    (by rw [isMatch_eq_accepts, accepts_plain_iff])

theorem IsPlain.of_suffix {pattern ending : List Char} (h : IsPlain pattern)
    (hending : ending <:+ pattern) : IsPlain ending :=
  ⟨fun c hc => h.ordinary c (hending.subset hc),
    fun hstars => h.apart (hstars.trans hending.isInfix)⟩

theorem IsPlain.tail {c : Char} {pattern : List Char} (h : IsPlain (c :: pattern)) :
    IsPlain pattern :=
  h.of_suffix (List.suffix_cons c pattern)

theorem IsPlain.head?_ne_star {pattern : List Char} (h : IsPlain ('*' :: pattern)) :
    pattern.head? ≠ some '*' := by
  intro hhead
  obtain ⟨rest, rfl⟩ := List.head?_eq_some_iff.mp hhead
  exact h.apart ⟨[], rest, rfl⟩

end Pattern

theorem Wildcard.steps_of_plain {pattern : List Char} (h : Pattern.IsPlain pattern) :
    (readFrom none pattern).map Token.step = pattern.map Pattern.plainStep := by
  induction pattern with
  | nil => rfl
  | cons c pattern ih =>
    have hrest := ih h.tail
    by_cases hstar : c = '*'
    · subst hstar
      simp [readFrom, hrest, Token.step, Pattern.plainStep]
    by_cases hmark : c = '?'
    · subst hmark
      simp [readFrom, hrest, Token.step, Pattern.plainStep]
    · have hspecial : isSpecial c = false := by
        simp [isSpecial, hstar, hmark, h.ordinary c List.mem_cons_self]
      simp [readFrom_of_not_isSpecial hspecial, hrest, Token.step, Pattern.plainStep, hstar, hmark]

theorem PathPattern.steps_of_plain {pattern : List Char} (h : Pattern.IsPlain pattern) (i : Nat)
    (previous : Option Char) :
    ∃ ts, readFrom i previous none pattern = .ok ts ∧
      ts.map Token.step = pattern.map Pattern.plainStep := by
  induction pattern generalizing i previous with
  | nil => exact ⟨[], by rw [readFrom], rfl⟩
  | cons c pattern ih =>
    obtain ⟨ts, hread, hsteps⟩ := ih h.tail (i + 1) (some c)
    by_cases hstar : c = '*'
    · subst hstar
      have hhead := h.head?_ne_star
      refine ⟨.anyRun :: ts, ?_, by simp [hsteps, Token.step, Pattern.plainStep]⟩
      rw [readFrom, hread]
      · rfl
      · rintro rest rfl
        exact hhead rfl
      · rintro rest rfl
        exact hhead rfl
    by_cases hmark : c = '?'
    · subst hmark
      refine ⟨.anyChar :: ts, ?_, by simp [hsteps, Token.step, Pattern.plainStep]⟩
      rw [readFrom, hread]
      rfl
    · have hopen : c ≠ '[' := (h.ordinary c List.mem_cons_self).1
      refine ⟨.literal c :: ts, ?_, by simp [hsteps, Token.step, Pattern.plainStep, hstar, hmark]⟩
      rw [readFrom, hread]
      · rfl
      all_goals simp [hstar, hmark, hopen]

theorem Wildcard.isMatch_plain_iff {pattern text : String} (h : Pattern.IsPlain pattern.toList) :
    isMatch pattern text = true ↔ Pattern.Matches pattern.toList text.toList := by
  rw [isMatch, read, steps_of_plain h, Pattern.isMatch_eq_accepts, Pattern.accepts_plain_iff]

theorem PathPattern.read_plain {pattern : String} (h : Pattern.IsPlain pattern.toList) :
    ∃ ts, read pattern = .ok ts ∧
      ∀ text, isMatch ts text = true ↔ Pattern.Matches pattern.toList text.toList := by
  obtain ⟨ts, hread, hsteps⟩ := steps_of_plain h 0 none
  refine ⟨ts, hread, ?_⟩
  intro text
  rw [isMatch, hsteps, Pattern.isMatch_eq_accepts, Pattern.accepts_plain_iff]

namespace Namespace
variable {n : Namespace} {pattern : String}

/-- A pattern matches the whole key, after dropping the namespace if the pattern starts with it, and
once only. -/
def Selects (n : Namespace) (pattern : String) (k : Key) : Prop :=
  Pattern.Matches (n.relative pattern).toList k.text.toList

instance (k : Key) : Decidable (n.Selects pattern k) :=
  inferInstanceAs (Decidable (Pattern.Matches _ _))

theorem relative_isSuffix (n : Namespace) (pattern : String) :
    (n.relative pattern).toList <:+ pattern.toList := by
  rw [relative]
  split
  · rename_i cs h
    rw [Text.stripLead_eq_some_iff.mp h, String.toList_ofList]
    exact List.suffix_append _ _
  · exact List.suffix_rfl

@[simp] theorem relative_lead_append (n : Namespace) (pattern : String) :
    n.relative (n.lead ++ pattern) = pattern := by
  simp [relative, Text.stripLead_append]

theorem relative_of_not_owns (h : n.owns pattern = false) : n.relative pattern = pattern := by
  rw [relative]
  split
  · rename_i cs hcs
    have howns : n.owns pattern = true :=
      owns_iff.mpr ⟨⟨String.ofList cs⟩, by rw [logical?, hcs]; rfl⟩
    rw [h] at howns
    cases howns
  · rfl

end Namespace

/-- A removal by a plain pattern drops the slots of the keys that the pattern selects. -/
theorem Memory.deletePattern_plain {n : Namespace} {pattern : String}
    (h : Pattern.IsPlain (n.relative pattern).toList) (m : Memory) :
    m.deletePattern n pattern =
      (.ok (m.removeWhere n fun k _ => n.Selects pattern k).1,
        (m.removeWhere n fun k _ => n.Selects pattern k).2) := by
  obtain ⟨ts, hread, hmatch⟩ := PathPattern.read_plain h
  have hdoomed : (fun (k : Key) (_ : Slot) => PathPattern.isMatch ts k.text) =
      fun k _ => decide (n.Selects pattern k) := by
    funext k _
    rw [Bool.eq_iff_iff, hmatch, decide_eq_true_iff]
    rfl
  rw [deletePattern, hread]
  simp only [hdoomed]

namespace KeyValue
variable {σ : Type} {client : Client σ} {v : View σ} {now : Instant} {s : σ} {pattern : String}

/-- In a store that scans with exact wildcards, a removal by a plain pattern takes the keys that the
pattern selects. -/
theorem Scope.deletePattern_plain (c : Scope) (hc : Contract client v)
    (hscans : client.ScansMatching now s) (hs : v.ready s)
    (h : Pattern.IsPlain (c.space.relative pattern).toList) :
    ∃ n s', (c.backend client).deletePattern now pattern s = (.ok n, s') ∧ v.ready s' ∧
      ∀ later, now ≤ later → ∀ k, v.value? later (c.space.physical k) s' =
        if c.space.Selects pattern k then none else v.value? later (c.space.physical k) s := by
  obtain ⟨n, s', hdone, hleaves⟩ :=
    c.removeMatching_matching hc hscans (c.storePattern (c.space.relative pattern))
      (fun _ => true) hs
  refine ⟨n, s', hdone, hleaves.ready, ?_⟩
  intro later hlater k
  have hselects : Wildcard.isMatch (c.storePattern (c.space.relative pattern))
      (c.space.physical k) = true ↔ c.space.Selects pattern k :=
    Wildcard.isMatch_storePattern_iff.trans (Wildcard.isMatch_plain_iff h)
  rw [hleaves.value? later hlater]
  simp only [Namespace.logical?_physical, Option.any_some, hselects, true_and]

/-- A removal by a plain pattern succeeds in memory and in a key-value store that scans with exact
wildcards, whatever they hold, and takes from both the keys that the pattern selects and no others
of the namespace. A pattern that does not start with the namespace may as well be given behind
it. -/
theorem Scope.deletePattern_agrees (c : Scope) (hc : Contract client v) (m : Memory)
    (hs : v.ready s) (hscans : client.ScansMatching now s)
    (hplain : Pattern.IsPlain pattern.toList) :
    ∃ n m' n' s', (Memory.backend c.space).deletePattern now pattern m = (.ok n, m') ∧
      (c.backend client).deletePattern now pattern s = (.ok n', s') ∧ v.ready s' ∧
      (∀ k, m'.slots.find? (c.space.physical k) =
        if c.space.Selects pattern k then none else m.slots.find? (c.space.physical k)) ∧
      (∀ later, now ≤ later → ∀ k, v.value? later (c.space.physical k) s' =
        if c.space.Selects pattern k then none else v.value? later (c.space.physical k) s) ∧
      (c.space.owns pattern = false →
        (Memory.backend c.space).deletePattern now (c.space.lead ++ pattern) m = (.ok n, m') ∧
        (c.backend client).deletePattern now (c.space.lead ++ pattern) s = (.ok n', s')) := by
  have hrelative : Pattern.IsPlain (c.space.relative pattern).toList :=
    hplain.of_suffix (c.space.relative_isSuffix pattern)
  obtain ⟨n', s', hstore, hready, hvalues⟩ := c.deletePattern_plain hc hscans hs hrelative
  have hmemory := Memory.deletePattern_plain hrelative m
  refine ⟨_, _, n', s', hmemory, hstore, hready, ?_, hvalues, ?_⟩
  · intro k
    rw [Memory.find?_removeWhere]
    cases m.slots.find? (c.space.physical k) <;>
      by_cases hk : c.space.Selects pattern k <;> simp [hk]
  · intro howns
    have hsame : c.space.relative (c.space.lead ++ pattern) = c.space.relative pattern := by
      rw [Namespace.relative_lead_append, Namespace.relative_of_not_owns howns]
    constructor
    · have hprefixed := Memory.deletePattern_plain (hsame ▸ hrelative) m
      simp only [Namespace.Selects, hsame] at hprefixed
      exact hprefixed
    · rw [← hstore]
      show c.removeMatching client now
        (c.storePattern (c.space.relative (c.space.lead ++ pattern))) _ s = _
      rw [hsame]
      rfl

/-- A namespace made of the signs of wildcards, and a pattern with a star that has to reach over
bars and slashes. It takes three keys of the four that a pattern without the question mark would
take, from pages of two keys that are named twice. The pattern may stand behind the namespace. -/
theorem Scope.deletePattern_agrees_on_metacharacters :
    let e : Entry :=
      { etag := "", content := [], status := .ok, headers := {}, storedAt := .epoch,
        expiresAt := none, policy := {} }
    let c : Scope := { space := ⟨"a*?[b]\\"⟩, batch := 1 }
    let keys : List Key :=
      [.derive .get "h" "/x/é" [], .derive .head "h" "/x/y/z" [], ⟨"*?/x"⟩, ⟨"/x"⟩, ⟨"]y"⟩]
    let pattern := "?*/x*"
    let server : Server := { listing := { twice := true, page := some 2 } }
    let m := (Memory.backend c.space).fill .epoch e keys {}
    let s := (c.backend Server.client).fill .epoch e keys server
    ∃ n m' n' s', (Memory.backend c.space).deletePattern .epoch pattern m = (.ok n, m') ∧
      (c.backend Server.client).deletePattern .epoch pattern s = (.ok n', s') ∧ n = 3 ∧ n' = 3 ∧
      m'.slots.keys = ["a*?[b]\\/x", "a*?[b]\\]y"] ∧
      s'.base.items.keys = ["a*?[b]\\/x", "a*?[b]\\]y"] ∧
      (Memory.backend c.space).deletePattern .epoch (c.space.lead ++ pattern) m = (.ok n, m') ∧
      (c.backend Server.client).deletePattern .epoch (c.space.lead ++ pattern) s =
        (.ok n', s') := by
  intro e c keys pattern server m s
  have hready : Server.view.ready s := ⟨by decide +kernel, by decide +kernel, by decide +kernel⟩
  have hscans : Server.client.ScansMatching .epoch s :=
    Server.client_scansMatching .epoch (by decide +kernel)
  have hplain : Pattern.IsPlain pattern.toList := ⟨by simp [pattern], by decide +kernel⟩
  obtain ⟨n, m', n', s', hmemory, hstore, -, -, -, hprefixed⟩ :=
    c.deletePattern_agrees Server.contract m hready hscans hplain
  obtain ⟨hmemory', hstore'⟩ := hprefixed (by decide)
  have hresult : (some n, m'.slots.keys) = (some 3, ["a*?[b]\\/x", "a*?[b]\\]y"]) := by
    apply (congrArg (fun z => (z.1.toOption, z.2.slots.keys)) hmemory).symm.trans
    decide +kernel
  have hresult' : (some n', s'.base.items.keys) = (some 3, ["a*?[b]\\/x", "a*?[b]\\]y"]) := by
    apply (congrArg (fun z => (z.1.toOption, z.2.base.items.keys)) hstore).symm.trans
    decide +kernel
  obtain ⟨⟨rfl⟩, hkeys⟩ := Prod.mk.inj hresult
  obtain ⟨⟨rfl⟩, hkeys'⟩ := Prod.mk.inj hresult'
  exact ⟨3, m', 3, s', hmemory, hstore, rfl, rfl, hkeys, hkeys', hmemory', hstore'⟩

end KeyValue

end ResponseCache
