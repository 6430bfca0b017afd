import ResponseCache.Json.Reader
import ResponseCache.Binary64.Decimal

/-!
# Typed reading of JSON

A structure is written as an object or as the array of its field values in order. A known field may
not be repeated. In an array the values at the end may be left out where the field has a default.
-/
namespace ResponseCache.Json

def text? : Document → Option String
  | .text t => t
  | _ => none

def bool? : Document → Option Bool
  | .bool b => some b
  | _ => none

/-- A whole number below `bound`, written without fraction and exponent. -/
def natBelow? (bound : Nat) : Document → Option Nat
  | .number n => do
    let k ← n.toNat?
    if k < bound then some k else none
  | _ => none

/-- The nearest double, unless it is out of range. -/
def double? : Document → Option Binary64
  | .number n => Binary64.ofDecimal n.negative n.coefficient n.scale
  | _ => none

def list? (item : Document → Option α) : Document → Option (List α)
  | .array items => items.mapM item
  | _ => none

/-- A member whose value may be null. -/
def nullable? (value : Document → Option α) : Document → Option (Option α)
  | .null => some none
  | j => (value j).map some

structure Fields where
  values : List (String × Document)
  positional : Bool

namespace Fields

/-- `closed` refuses members that are not among the names. -/
def ofObject? (names : List String) (closed : Bool) (members : List (Option String × Document)) :
    Option Fields := do
  let all ← members.mapM fun (name, v) => name.map (·, v)
  let known := all.filter fun m => names.contains m.1
  if (known.map (·.1)).Nodup ∧ (closed = false ∨ known.length = all.length) then
    some ⟨known, false⟩ else none

def ofDocument? (names : List String) (closed : Bool) : Document → Option Fields
  | .array items => if items.length ≤ names.length then some ⟨names.zip items, true⟩ else none
  | .object members => ofObject? names closed members
  | _ => none

def required (f : Fields) (name : String) (read : Document → Option α) : Option α := do
  read (← f.values.lookup name)

def orDefault (f : Fields) (name : String) (read : Document → Option α) (default : α) : Option α :=
  match f.values.lookup name with
  | none => some default
  | some j => read j

/-- May be null; may be missing from an object but not from an array. -/
def optional (f : Fields) (name : String) (read : Document → Option α) : Option (Option α) :=
  match f.values.lookup name with
  | none => if f.positional then none else some none
  | some j => nullable? read j

end Fields
end ResponseCache.Json
