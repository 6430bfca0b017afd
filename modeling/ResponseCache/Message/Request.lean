import ResponseCache.Message.Method
import ResponseCache.Message.Headers
import ResponseCache.Text.Percent
import ResponseCache.Text.Split

/-! # Requests -/
namespace ResponseCache

/-- What the cache looks at. The query parameters are decoded and in order of arrival. -/
structure Request where
  method : Method := .get
  host : String
  path : String
  query : List (String × String) := []
  headers : Headers := {}
deriving DecidableEq

namespace Request

/-- The first value of a query parameter. -/
def parameter? (r : Request) (name : String) : Option String := r.query.lookup name

def ifNoneMatch? (r : Request) : Option String := r.headers.joined? "if-none-match"

end Request

namespace Query

/-- A plus sign is a space and an escape is its byte. -/
def decode (cs : List Char) : String :=
  String.ofList (Percent.decode (cs.map fun c => if c = '+' then ' ' else c))

def pair (segment : List Char) : String × String :=
  match Text.splitOnce '=' segment with
  | some (name, value) => (decode name, decode value)
  | none => (decode segment, "")

/-- One parameter for each segment between ampersands that is not empty. -/
def read (cs : List Char) : List (String × String) :=
  ((cs.splitOn '&').filter (!·.isEmpty)).map pair

end Query
end ResponseCache
