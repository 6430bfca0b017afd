/-!
# Ascending lists of texts

Texts are compared character by character by code point, which is also the order of their UTF-8
bytes. An ascending list has no repetition, so it is determined by its members.
-/
namespace ResponseCache

theorem text_lt_irrefl (a : String) : ¬ a < a := String.lt_irrefl a

theorem text_ne_of_lt {a b : String} (h : a < b) : a ≠ b := fun heq => text_lt_irrefl b (heq ▸ h)

theorem text_lt_trans {a b c : String} (h : a < b) (h' : b < c) : a < c := String.lt_trans h h'

theorem text_lt_of_not {a b : String} (h : ¬ a < b) (hne : a ≠ b) : b < a :=
  Classical.byContradiction fun h' => hne (String.le_antisymm h' h)

namespace Ascending

def insert (a : String) : List String → List String
  | [] => [a]
  | b :: bs => if a < b then a :: b :: bs else if a = b then b :: bs else b :: insert a bs

/-- The distinct members of a list, in ascending order. -/
def ofList (as : List String) : List String := as.foldr insert []

theorem mem_insert {a x : String} {bs : List String} : x ∈ insert a bs ↔ x = a ∨ x ∈ bs := by
  induction bs with
  | nil => simp [insert]
  | cons b bs ih =>
    unfold insert
    split
    · simp
    · split
      · rename_i h; simp [h]
      · simp [ih, or_left_comm]

theorem mem_ofList {x : String} {as : List String} : x ∈ ofList as ↔ x ∈ as := by
  induction as with
  | nil => simp [ofList]
  | cons a as ih => simp only [ofList, List.foldr_cons, mem_insert, List.mem_cons] at *; rw [ih]

theorem pairwise_insert {a : String} {bs : List String} (h : bs.Pairwise (· < ·)) :
    (insert a bs).Pairwise (· < ·) := by
  induction bs with
  | nil => simp [insert]
  | cons b bs ih =>
    obtain ⟨hb, hbs⟩ := List.pairwise_cons.mp h
    unfold insert
    split
    · rename_i hab
      refine List.pairwise_cons.mpr ⟨?_, h⟩
      intro x hx
      rcases List.mem_cons.mp hx with rfl | hx
      · exact hab
      · exact text_lt_trans hab (hb x hx)
    · split
      · exact h
      · rename_i hab hne
        refine List.pairwise_cons.mpr ⟨?_, ih hbs⟩
        intro x hx
        rcases mem_insert.mp hx with rfl | hx
        · exact text_lt_of_not hab hne
        · exact hb x hx

theorem pairwise_ofList (as : List String) : (ofList as).Pairwise (· < ·) := by
  induction as with
  | nil => exact List.Pairwise.nil
  | cons a as ih => exact pairwise_insert ih

/-- Lists that ascend by a text of their members are equal if they have the same members. -/
theorem eq_of_mem_iff {α : Type} {f : α → String} {as bs : List α}
    (ha : as.Pairwise fun a b => f a < f b) (hb : bs.Pairwise fun a b => f a < f b)
    (h : ∀ x, x ∈ as ↔ x ∈ bs) : as = bs := by
  have hne : ∀ {a b : α}, f a < f b → a ≠ b := fun hlt heq => text_ne_of_lt hlt (congrArg f heq)
  have hperm : as.Perm bs := (List.perm_ext_iff_of_nodup (ha.imp hne) (hb.imp hne)).mpr h
  apply hperm.eq_of_pairwise _ ha hb
  intro a b _ _ hab hba
  exact absurd (text_lt_trans hab hba) (text_lt_irrefl _)

theorem ofList_congr {as bs : List String} (h : ∀ x, x ∈ as ↔ x ∈ bs) : ofList as = ofList bs := by
  apply eq_of_mem_iff (f := id) (pairwise_ofList as) (pairwise_ofList bs)
  intro x
  rw [mem_ofList, mem_ofList, h]

end Ascending
end ResponseCache
