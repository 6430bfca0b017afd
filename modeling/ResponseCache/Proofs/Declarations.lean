import ResponseCache.Policy.Declaration
import ResponseCache.Proofs.Merging

/-!
# Declarations read back

A route's declaration is written as a Cache-Control value, and the policy is read from that value
again. What is read is what was declared: nothing beside `no-store`, and lifetimes to the second, up
to the longest one.
-/
namespace ResponseCache

namespace CacheControl

/-- Whole seconds, as many as a field value can say. -/
def stated (d : Duration) : Duration := .ofSeconds (min d.seconds maxDelta)

theorem delta?_toDigits (n : Nat) :
    delta? (some (Nat.toDigits 10 n)) = some (.ofSeconds (min n maxDelta)) := by
  have hdigits : (Nat.toDigits 10 n).all Char.isDigit = true := by
    rw [List.all_eq_true]
    exact fun c hc => Nat.isDigit_of_mem_toDigits (by decide) (by decide) hc
  have hvalue : Nat.ofDigitChars 10 (Nat.toDigits 10 n) 0 = n :=
    Nat.ofDigitChars_toDigits (by decide) (by decide)
  have hempty : (Nat.toDigits 10 n).isEmpty = false := by simp [Nat.toDigits_ne_nil]
  rw [delta?, hdigits, hempty, hvalue]
  rfl

/-- A lifetime is read as its directive. -/
theorem read_lifetime {name : String} (hname : IsToken name.toList) {make : Duration → Directive}
    (hmake : ∀ argument, Directive.ofParts? (Text.lower name) argument = (delta? argument).map make)
    (d : Duration) :
    read (name ++ "=" ++ String.ofList (Nat.toDigits 10 d.seconds)) = (make (stated d)).policy := by
  have hdigit : ∀ c ∈ Nat.toDigits 10 d.seconds, c.isDigit = true :=
    fun c hc => Nat.isDigit_of_mem_toDigits (by decide) (by decide) hc
  have htrim : Text.trim (Nat.toDigits 10 d.seconds) = Nat.toDigits 10 d.seconds :=
    Text.trimWhile_eq_self fun c hc => Text.isBlank_of_isDigit (hdigit c hc)
  have hquotes : Text.trimWhile (· == '"') (Nat.toDigits 10 d.seconds) =
      Nat.toDigits 10 d.seconds :=
    Text.trimWhile_eq_self fun c hc => Text.beq_of_isDigit (hdigit c hc) rfl
  have hcomma : ',' ∉ name.toList ++ '=' :: Nat.toDigits 10 d.seconds := by
    intro hmem
    rcases List.mem_append.mp hmem with hc | hc
    · exact hname.not_mem (by decide) hc
    · rcases List.mem_cons.mp hc with hc | hc
      · cases hc
      · cases hdigit _ hc
  have hlist : (name ++ "=" ++ String.ofList (Nat.toDigits 10 d.seconds)).toList =
      name.toList ++ '=' :: Nat.toDigits 10 d.seconds := by simp
  have hlower : name.toList.map Char.toLower = Text.lower name := rfl
  rw [read_eq_mergeAll, hlist, directives_of_not_mem hcomma, Directive.ofSegment?_assignment hname,
    htrim, hquotes, hlower, hmake, delta?_toDigits]
  simp [stated]

end CacheControl

namespace Declaration
open CacheControl

theorem mergeAll_lifetime {name : String} (hname : IsToken name.toList)
    (make : Duration → Directive)
    (hmake : ∀ argument, Directive.ofParts? (Text.lower name) argument = (delta? argument).map make)
    (o : Option Duration) :
    Policy.mergeAll ((lifetime name o).map read) =
      (o.map fun d => (make (stated d)).policy).getD {} := by
  cases o with
  | none => rfl
  | some d => simp [lifetime, read_lifetime hname hmake]

deriving instance DecidableEq for Clause

namespace Clause

def ttl? : Clause → Option Duration
  | ttl d => some d
  | _ => none

def staleWhileRevalidate? : Clause → Option Duration
  | staleWhileRevalidate d => some d
  | _ => none

def staleIfError? : Clause → Option Duration
  | staleIfError d => some d
  | _ => none

end Clause

/-- The policy that clauses ask for, in any order. -/
def asked (cs : List Clause) : Policy :=
  if .noStore ∈ cs then { noStore := true }
  else if .noCache ∈ cs then { noCache := true, mustRevalidate := .mustRevalidate ∈ cs }
  else {
    ttl := (cs.filterMap Clause.ttl?).getLast?.map stated
    visibility :=
      if .publicly ∈ cs then .publicly
      else if .privately ∈ cs then .privately else .unspecified
    mustRevalidate := .mustRevalidate ∈ cs
    immutable := .immutable ∈ cs
    staleWhileRevalidate := (cs.filterMap Clause.staleWhileRevalidate?).getLast?.map stated
    staleIfError := (cs.filterMap Clause.staleIfError?).getLast?.map stated }

/-- A flag is set by a clause anywhere, and a lifetime by the last clause of its kind. -/
theorem foldl_add (r : Declaration) (cs : List Clause) : cs.foldl add r = {
    ttl := (cs.filterMap Clause.ttl?).getLast?.or r.ttl
    staleWhileRevalidate :=
      (cs.filterMap Clause.staleWhileRevalidate?).getLast?.or r.staleWhileRevalidate
    staleIfError := (cs.filterMap Clause.staleIfError?).getLast?.or r.staleIfError
    noCache := r.noCache || .noCache ∈ cs
    noStore := r.noStore || .noStore ∈ cs
    isPublic := r.isPublic || .publicly ∈ cs
    isPrivate := r.isPrivate || .privately ∈ cs
    immutable := r.immutable || .immutable ∈ cs
    mustRevalidate := r.mustRevalidate || .mustRevalidate ∈ cs } := by
  induction cs generalizing r with
  | nil => simp
  | cons c cs ih =>
    rw [List.foldl_cons, ih]
    cases c <;>
      simp [add, Clause.ttl?, Clause.staleWhileRevalidate?, Clause.staleIfError?,
        List.getLast?_cons]

theorem mergeAll_visibility (isPublic isPrivate : Bool) :
    Policy.mergeAll ((if isPublic = true then ["public"] else flag "private" isPrivate).map read) =
      { visibility :=
          if isPublic = true then .publicly
          else if isPrivate = true then .privately else .unspecified } := by
  cases isPublic <;> cases isPrivate <;> decide

/-- The written directives say what was asked for. -/
theorem mergeAll_directives (cs : List Clause) :
    Policy.mergeAll ((ofClauses cs).directives.map read) = asked cs := by
  have hmax : ∀ o, Policy.mergeAll ((lifetime "max-age" o).map read) = { ttl := o.map stated } := by
    intro o
    rw [mergeAll_lifetime (by decide) .maxAge (fun _ => rfl)]
    cases o <;> rfl
  have hwhile : ∀ o, Policy.mergeAll ((lifetime "stale-while-revalidate" o).map read) =
      { staleWhileRevalidate := o.map stated } := by
    intro o
    rw [mergeAll_lifetime (by decide) .staleWhileRevalidate (fun _ => rfl)]
    cases o <;> rfl
  have herror : ∀ o, Policy.mergeAll ((lifetime "stale-if-error" o).map read) =
      { staleIfError := o.map stated } := by
    intro o
    rw [mergeAll_lifetime (by decide) .staleIfError (fun _ => rfl)]
    cases o <;> rfl
  have hmust : ∀ b, Policy.mergeAll ((flag "must-revalidate" b).map read) =
      { mustRevalidate := b } := by decide
  have himmutable : ∀ b, Policy.mergeAll ((flag "immutable" b).map read) = { immutable := b } := by
    decide
  have hvisibility := mergeAll_visibility (decide (.publicly ∈ cs)) (decide (.privately ∈ cs))
  have hnoCache : read "no-cache" = { noCache := true } := by decide
  have hnoStore : Policy.mergeAll (["no-store"].map read) = { noStore := true } := by decide
  rw [ofClauses, foldl_add, directives, asked]
  simp only [Bool.false_or, Option.or_none, decide_eq_true_eq] at hvisibility ⊢
  split
  · exact hnoStore
  · split
    · rw [List.map_cons, Policy.mergeAll_cons, hmust, hnoCache]
      simp [Policy.merge, Visibility.merge]
    · simp only [List.map_append, Policy.mergeAll_append, hvisibility, hmax, hmust, hwhile, herror,
        himmutable]
      simp [Policy.merge, Visibility.merge_unspecified]

/-- Every clause asks for something. -/
theorem asked_eq_empty_iff {cs : List Clause} : asked cs = {} ↔ cs = [] := by
  constructor
  · intro h
    cases cs with
    | nil => rfl
    | cons c cs =>
      rw [asked] at h
      split at h
      · cases h
      · rename_i hstore
        split at h
        · cases h
        · rename_i hcache
          simp only [Policy.mk.injEq, decide_eq_false_iff_not, Option.map_eq_none_iff] at h
          obtain ⟨httl, hvisibility, -, -, hmust, himmutable, hwhile, herror⟩ := h
          cases c with
          | noStore => simp at hstore
          | noCache => simp at hcache
          | publicly => simp at hvisibility
          | privately =>
            rw [if_pos (List.mem_cons_self : Clause.privately ∈ _)] at hvisibility
            split at hvisibility <;> cases hvisibility
          | immutable => simp at himmutable
          | mustRevalidate => simp at hmust
          | ttl d => simp [Clause.ttl?] at httl
          | staleWhileRevalidate d => simp [Clause.staleWhileRevalidate?] at hwhile
          | staleIfError d => simp [Clause.staleIfError?] at herror
  · rintro rfl
    rfl

theorem directives_eq_nil_iff {cs : List Clause} : (ofClauses cs).directives = [] ↔ cs = [] := by
  constructor
  · intro h
    rw [← asked_eq_empty_iff, ← mergeAll_directives, h]
    rfl
  · rintro rfl
    rfl

theorem bypassesLookup_ofClauses (cs : List Clause) :
    (ofClauses cs).bypassesLookup = ((asked cs).noStore || (asked cs).noCache) := by
  rw [bypassesLookup, ofClauses, foldl_add, asked]
  split
  · rename_i hstore
    simp [hstore]
  · rename_i hstore
    split
    · rename_i hcache
      simp [hcache]
    · rename_i hcache
      simp [hstore, hcache]

/-- Whatever clauses are declared in whatever order: there is a field value unless there are none,
the policy read from it is the one asked for, and the lookup is bypassed exactly when that policy
says `no-store` or `no-cache`. -/
theorem declared_reads_back (cs : List Clause) :
    ((ofClauses cs).cacheControl? = none ↔ cs = []) ∧
      (ofClauses cs).cacheControl?.map read = (if cs = [] then none else some (asked cs)) ∧
      (ofClauses cs).bypassesLookup = ((ofClauses cs).cacheControl?.map read).any fun p =>
        p.noStore || p.noCache := by
  by_cases hcs : cs = []
  · subst hcs
    exact ⟨iff_of_true rfl rfl, rfl, rfl⟩
  · have hvalue : (ofClauses cs).cacheControl? =
        some (", ".intercalate (ofClauses cs).directives) := by
      rw [cacheControl?]
      split
      · rename_i hnil
        exact absurd (directives_eq_nil_iff.mp hnil) hcs
      · rfl
    rw [hvalue, Option.map_some, read_intercalate, mergeAll_directives, if_neg hcs]
    exact ⟨by simp [hcs], rfl, bypassesLookup_ofClauses cs⟩

/-- Lifetimes with fractions, beyond the longest one and declared again, and `private` before
`public`. -/
example :
    (ofClauses [.ttl .longest, .privately, .staleIfError ⟨2999999999, by decide⟩, .immutable,
      .ttl (.ofSeconds 60), .publicly, .staleWhileRevalidate .longest]).cacheControl?.map read =
    some {
      ttl := some (.ofSeconds 60), visibility := .publicly, immutable := true,
      staleWhileRevalidate := some (.ofSeconds (2 ^ 31)),
      staleIfError := some (.ofSeconds 2) } := by
  decide +kernel

end Declaration
end ResponseCache
