import ResponseCache.Message.Request
import ResponseCache.Ascending

/-!
# Cache keys

A key is made of method, host, path and query with three bars between them. The bar and the percent
sign are escaped in the parts, so the parts can be read off a key. Query parameters are a set: they
are sorted and each stands once.
-/
namespace ResponseCache

@[ext] structure Key where
  text : String
deriving DecidableEq

namespace Key

def bars : List Char := ['|', '|', '|']

/-- Control bytes, the percent sign and the bar. -/
def escapedInPart (b : UInt8) : Bool :=
  b.toNat < 0x20 || b.toNat == 0x7f || b.toNat == 0x25 || b.toNat == 0x7c

/-- Also the two signs that join the parameters. -/
def escapedInQuery (b : UInt8) : Bool := escapedInPart b || b.toNat == 0x26 || b.toNat == 0x3d

def encodePart (s : String) : List Char := Percent.encode escapedInPart s.toList

def encodePair (p : String × String) : String :=
  String.ofList
    (Percent.encode escapedInQuery p.1.toList ++ '=' :: Percent.encode escapedInQuery p.2.toList)

def encodeQuery (query : List (String × String)) : List Char :=
  ['&'].intercalate ((Ascending.ofList (query.map encodePair)).map String.toList)

def derive (method : Method) (host path : String) (query : List (String × String)) : Key :=
  ⟨String.ofList
    (encodePart method.text ++ bars ++ encodePart host ++ bars ++ encodePart path ++ bars ++
    encodeQuery query)⟩

def ofRequest (r : Request) : Key := derive r.method r.host r.path r.query

/-- The parts of a key, decoded but for the query, whose pairs would run together. -/
structure Parts where
  method : String := ""
  host : String := ""
  path : String := ""
  query : String := ""
deriving DecidableEq

/-- What stands between the triple bars, taken from the left. -/
def cutAtBars : List Char → List (List Char)
  | '|' :: '|' :: '|' :: cs => [] :: cutAtBars cs
  | c :: cs => match cutAtBars cs with
    | [] => [[c]]
    | part :: parts => (c :: part) :: parts
  | [] => [[]]

def decodePart (cs : List Char) : String := String.ofList (Percent.decode cs)

/-- Empty parts for a text that has not four of them. -/
def parts (k : Key) : Parts :=
  match cutAtBars k.text.toList with
  | [method, host, path, query] =>
    { method := decodePart method, host := decodePart host, path := decodePart path,
      query := String.ofList query }
  | _ => {}

end Key
end ResponseCache
