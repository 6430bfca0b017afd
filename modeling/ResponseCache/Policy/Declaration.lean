import ResponseCache.Policy.CacheControl

/-!
# Declarations

What a route declares about its responses. Before the handler runs, `no-store` and `no-cache` keep
the cache out; afterwards the declaration replaces the Cache-Control fields of the response.
-/
namespace ResponseCache

structure Declaration where
  ttl : Option Duration := none
  staleWhileRevalidate : Option Duration := none
  staleIfError : Option Duration := none
  noCache : Bool := false
  noStore : Bool := false
  isPublic : Bool := false
  isPrivate : Bool := false
  immutable : Bool := false
  mustRevalidate : Bool := false
deriving DecidableEq

namespace Declaration

instance : Inhabited Declaration := ⟨{}⟩

/-- One thing that a route can declare; a lifetime declared again replaces the earlier one. -/
inductive Clause
  | noCache | noStore | publicly | privately | immutable | mustRevalidate
  | ttl (d : Duration) | staleWhileRevalidate (d : Duration) | staleIfError (d : Duration)

def add (r : Declaration) : Clause → Declaration
  | .noCache => { r with noCache := true }
  | .noStore => { r with noStore := true }
  | .publicly => { r with isPublic := true }
  | .privately => { r with isPrivate := true }
  | .immutable => { r with immutable := true }
  | .mustRevalidate => { r with mustRevalidate := true }
  | .ttl d => { r with ttl := some d }
  | .staleWhileRevalidate d => { r with staleWhileRevalidate := some d }
  | .staleIfError d => { r with staleIfError := some d }

def ofClauses (cs : List Clause) : Declaration := cs.foldl add {}

def bypassesLookup (r : Declaration) : Bool := r.noStore || r.noCache

/-- A directive with a lifetime in whole seconds. -/
def lifetime (name : String) : Option Duration → List String
  | none => []
  | some d => [name ++ "=" ++ String.ofList (Nat.toDigits 10 d.seconds)]

def flag (name : String) (declared : Bool) : List String := if declared then [name] else []

/-- `no-store` stands alone, `no-cache` takes `must-revalidate` along only, and `public` hides
`private`. -/
def directives (r : Declaration) : List String :=
  if r.noStore then ["no-store"]
  else if r.noCache then "no-cache" :: flag "must-revalidate" r.mustRevalidate
  else
    (if r.isPublic then ["public"] else flag "private" r.isPrivate) ++ lifetime "max-age" r.ttl ++
      flag "must-revalidate" r.mustRevalidate ++
      lifetime "stale-while-revalidate" r.staleWhileRevalidate ++
      lifetime "stale-if-error" r.staleIfError ++ flag "immutable" r.immutable

/-- The Cache-Control value, absent when nothing is declared. -/
def cacheControl? (r : Declaration) : Option String :=
  match r.directives with
  | [] => none
  | ds => some (", ".intercalate ds)

end Declaration
end ResponseCache
