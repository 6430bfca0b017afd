import ResponseCache.Text.Caseless

/-!
# Header fields

Fields in order of arrival, found by name without regard to ASCII letter case. A name may have
several values.
-/
namespace ResponseCache

@[ext] structure Headers where
  fields : List (String × String) := []
deriving DecidableEq

namespace Headers

def empty : Headers := {}

instance : Inhabited Headers := ⟨empty⟩

def named (name : String) (field : String × String) : Bool := Text.sameName field.1 name

def insert (h : Headers) (name value : String) : Headers := ⟨h.fields ++ [(name, value)]⟩

/-- The fields of every other name. -/
def erase (h : Headers) (name : String) : Headers := ⟨h.fields.filter (!named name ·)⟩

def contains (h : Headers) (name : String) : Bool := h.fields.any (named name)

/-- Replaces the values of a name by one, which goes to the end. -/
def set (h : Headers) (name value : String) : Headers := (h.erase name).insert name value

/-- All values of a name, in order. -/
def getAll (h : Headers) (name : String) : List String := (h.fields.filter (named name)).map (·.2)

/-- The first value of a name. -/
def get? (h : Headers) (name : String) : Option String := (h.fields.find? (named name)).map (·.2)

/-- All values of a name as one comma-separated list. -/
def joined? (h : Headers) (name : String) : Option String :=
  match h.getAll name with
  | [] => none
  | values => some (", ".intercalate values)

def size (h : Headers) : Nat := h.fields.length

/-- Drops the fields of a name, and tells whether that made the list shorter. -/
def remove (h : Headers) (name : String) : Bool × Headers :=
  ((h.erase name).size < h.size, h.erase name)

def isEmpty (h : Headers) : Bool := h.fields.isEmpty

/-- One line a field, as in a message head. -/
def lines (h : Headers) : String :=
  String.join (h.fields.map fun (name, value) => s!"{name}: {value}\r\n")

end Headers
end ResponseCache
