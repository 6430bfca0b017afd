import ResponseCache.Policy.Basic
import ResponseCache.Message.Headers
import ResponseCache.Text.Blank
import ResponseCache.Text.Split

/-!
# Cache-Control

A field value is a list of directives between commas. Flags add up, `private` beats `public`, and of
several lifetimes of one name the first valid one holds. Unknown directives and malformed lifetimes
say nothing.
-/
namespace ResponseCache.CacheControl

/-- A name in lower case and the argument after an equals sign, without the quotes around it. -/
def directive? (segment : List Char) : Option (List Char × Option (List Char)) :=
  match Text.trim segment with
  | [] => none
  | cs => match Text.splitOnce '=' cs with
    | some (name, argument) =>
      some ((Text.trim name).map Char.toLower,
        some (Text.trimWhile (· == '"') (Text.trim argument)))
    | none => some (cs.map Char.toLower, none)

/-- Longer lifetimes count as this one. -/
def maxDelta : Nat := 2 ^ 31

/-- A lifetime in seconds is a run of digits of any length. -/
def delta? : Option (List Char) → Option Duration
  | none => none
  | some cs =>
    if !cs.isEmpty && cs.all Char.isDigit then
      some (.ofSeconds (min (Nat.ofDigitChars 10 cs 0) maxDelta))
    else none

/-- The directives that mean something. -/
inductive Directive
  | noStore | noCache | mustRevalidate | immutable | publicly | privately
  | maxAge (d : Duration) | staleWhileRevalidate (d : Duration) | staleIfError (d : Duration)

def Directive.ofParts? (name : List Char) (argument : Option (List Char)) : Option Directive :=
  if name = "no-store".toList then some noStore
  else if name = "no-cache".toList then some noCache
  else if name = "must-revalidate".toList then some mustRevalidate
  else if name = "immutable".toList then some immutable
  else if name = "public".toList then some publicly
  else if name = "private".toList then some privately
  else if name = "max-age".toList then (delta? argument).map maxAge
  else if name = "stale-while-revalidate".toList then (delta? argument).map staleWhileRevalidate
  else if name = "stale-if-error".toList then (delta? argument).map staleIfError
  else none

def Directive.apply (p : Policy) : Directive → Policy
  | noStore => { p with noStore := true }
  | noCache => { p with noCache := true }
  | mustRevalidate => { p with mustRevalidate := true }
  | immutable => { p with immutable := true }
  | publicly => if p.visibility = .privately then p else { p with visibility := .publicly }
  | privately => { p with visibility := .privately }
  | maxAge d => { p with ttl := p.ttl.or (some d) }
  | staleWhileRevalidate d => { p with staleWhileRevalidate := p.staleWhileRevalidate.or (some d) }
  | staleIfError d => { p with staleIfError := p.staleIfError.or (some d) }

def Directive.ofSegment? (segment : List Char) : Option Directive :=
  (directive? segment).bind fun (name, argument) => ofParts? name argument

def directives (value : List Char) : List Directive :=
  (value.splitOn ',').filterMap Directive.ofSegment?

def read (value : String) : Policy := (directives value.toList).foldl Directive.apply {}

/-- The policy of a response, from all of its Cache-Control fields. -/
def ofHeaders (h : Headers) : Policy :=
  match h.joined? "cache-control" with
  | some value => read value
  | none => {}

end ResponseCache.CacheControl
