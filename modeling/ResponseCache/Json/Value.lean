import ResponseCache.Json.Numeral

/-!
# JSON values

The tree of a document. Its texts are of type `τ`: a writer fills in strings, a reader may leave a
text open that is well-formed between its quotes but spells no string. Members keep their order and
may repeat a name; what that means is for the typed readers.
-/
namespace ResponseCache

inductive Json (τ : Type)
  | null
  | bool (value : Bool)
  | number (value : Numeral)
  | text (value : τ)
  | array (items : List (Json τ))
  | object (members : List (τ × Json τ))

namespace Json
variable {τ υ : Type}

mutual
def map (f : τ → υ) : Json τ → Json υ
  | .null => .null
  | .bool b => .bool b
  | .number n => .number n
  | .text t => .text (f t)
  | .array items => .array (mapItems f items)
  | .object members => .object (mapMembers f members)

def mapItems (f : τ → υ) : List (Json τ) → List (Json υ)
  | [] => []
  | j :: js => j.map f :: mapItems f js

def mapMembers (f : τ → υ) : List (τ × Json τ) → List (υ × Json υ)
  | [] => []
  | (name, j) :: ms => (f name, j.map f) :: mapMembers f ms
end

def nat (n : Nat) : Json τ := .number (.ofNat n)

def option (f : α → Json τ) : Option α → Json τ
  | none => .null
  | some a => f a

end Json
end ResponseCache
