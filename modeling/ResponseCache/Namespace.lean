import ResponseCache.Key
import ResponseCache.Text.Alphanumeric
import ResponseCache.Text.Split

/-!
# Namespaces

Caches share a store by putting a text of their own in front of every key. A namespace owns what
starts with its text, so that text should end in a delimiter.
-/
namespace ResponseCache

@[ext] structure Namespace where
  lead : String
deriving DecidableEq

namespace Namespace

def default : Namespace := ⟨"cachex:"⟩

/-- The last character is neither a letter nor a digit. -/
def isDelimited (n : Namespace) : Bool :=
  match n.lead.toList.getLast? with
  | none => false
  | some c => !Text.isAlphanumeric c

/-- The name of a key in the store. -/
def physical (n : Namespace) (k : Key) : String := n.lead ++ k.text

/-- The key behind a name in the store, if the namespace owns it. -/
def logical? (n : Namespace) (physical : String) : Option Key :=
  (Text.stripLead n.lead.toList physical.toList).map fun cs => ⟨String.ofList cs⟩

def owns (n : Namespace) (physical : String) : Bool := n.lead.toList.isPrefixOf physical.toList

/-- A pattern without the namespace, in case it starts with it. -/
def relative (n : Namespace) (pattern : String) : String :=
  match Text.stripLead n.lead.toList pattern.toList with
  | some cs => String.ofList cs
  | none => pattern

@[simp] theorem logical?_physical (n : Namespace) (k : Key) :
    n.logical? (n.physical k) = some k := by
  simp [logical?, physical, Text.stripLead_append]

theorem logical?_eq_some_iff {n : Namespace} {s : String} {k : Key} :
    n.logical? s = some k ↔ s = n.physical k := by
  constructor
  · intro h
    simp only [logical?, Option.map_eq_some_iff, Text.stripLead_eq_some_iff] at h
    obtain ⟨cs, hs, rfl⟩ := h
    apply String.toList_inj.mp
    simp [physical, hs]
  · rintro rfl; exact logical?_physical n k

theorem physical_inj {n : Namespace} {k k' : Key} : n.physical k = n.physical k' ↔ k = k' := by
  rw [← logical?_eq_some_iff, logical?_physical, Option.some.injEq, eq_comm]

theorem owns_iff {n : Namespace} {s : String} : n.owns s = true ↔ ∃ k, n.logical? s = some k := by
  simp only [owns, List.isPrefixOf_iff_prefix, logical?_eq_some_iff]
  constructor
  · rintro ⟨cs, h⟩
    exact ⟨⟨String.ofList cs⟩, String.toList_inj.mp (by simp [physical, ← h])⟩
  · rintro ⟨k, rfl⟩; exact ⟨k.text.toList, by simp [physical]⟩

end Namespace
end ResponseCache
