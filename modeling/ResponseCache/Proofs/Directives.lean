import Mathlib
import ResponseCache.Policy.CacheControl

/-!
# Directives of a field value

Where one directive ends and the next begins, what a directive with an argument is read as, and that
letter case plays no part in it.
-/
namespace ResponseCache

namespace Text

/-- A test that no letter passes cannot see letter case. -/
theorem toLower_congr {p : Char → Bool} (hp : ∀ c : Char, c.isAlpha = true → p c = false)
    (c : Char) : p c.toLower = p c := by
  cases h : c.isUpper with
  | true =>
    have hletter : c.isAlpha = true := by simp [Char.isAlpha, h]
    rw [hp c.toLower (by rwa [Char.isAlpha_toLower_eq_isAlpha]), hp c hletter]
  | false => rw [Char.toLower_eq_of_not_isUpper (by simp [h])]

theorem beq_toLower {sep : Char} (hsep : sep.isAlpha = false) (c : Char) :
    (c.toLower == sep) = (c == sep) := by
  refine toLower_congr (p := (· == sep)) (fun c hc => ?_) c
  rw [beq_eq_false_iff_ne]
  rintro rfl
  rw [hsep] at hc
  cases hc

theorem isDigit_of_isAlpha {c : Char} (h : c.isAlpha = true) : c.isDigit = false := by
  simp only [Char.isAlpha, Char.isUpper, Char.isLower, Char.isDigit, ge_iff_le,
    UInt32.le_iff_toNat_le, Bool.and_eq_true, Bool.or_eq_true, Bool.and_eq_false_iff,
    decide_eq_true_eq, decide_eq_false_iff_not, UInt32.reduceToNat, Char.reduceVal] at *
  omega

theorem toLower_of_isDigit {c : Char} (h : c.isDigit = true) : c.toLower = c := by
  apply Char.toLower_eq_of_not_isUpper
  intro hupper
  rw [isDigit_of_isAlpha (by simp [Char.isAlpha, hupper])] at h
  cases h

theorem isBlank_of_isAlphanum {c : Char} (h : c.isAlphanum = true) : isBlank c = false := by
  have hn : c.toNat = c.val.toNat := rfl
  simp only [Char.isAlphanum, Char.isAlpha, Char.isUpper, Char.isLower, Char.isDigit, ge_iff_le,
    UInt32.le_iff_toNat_le, Bool.and_eq_true, Bool.or_eq_true, decide_eq_true_eq,
    UInt32.reduceToNat, Char.reduceVal] at h
  exact isBlank_of_visible (by omega) (by omega)

theorem isBlank_of_isDigit {c : Char} (h : c.isDigit = true) : isBlank c = false :=
  isBlank_of_isAlphanum (by simp [Char.isAlphanum, h])

theorem beq_of_isDigit {c sep : Char} (h : c.isDigit = true) (hsep : sep.isDigit = false) :
    (c == sep) = false := by
  rw [beq_eq_false_iff_ne]
  rintro rfl
  rw [hsep] at h
  cases h

theorem isBlank_toLower (c : Char) : isBlank c.toLower = isBlank c :=
  toLower_congr (p := isBlank) (fun _ hc => isBlank_of_isAlphanum (by simp [Char.isAlphanum, hc])) c

end Text

namespace CacheControl

/-- A comma ends a directive, whatever is around it. -/
theorem directives_comma (a b : List Char) :
    directives (a ++ ',' :: b) = directives a ++ directives b := by
  rw [directives, List.splitOn_append_cons_self, List.filterMap_append]
  rfl

theorem directives_of_not_mem {cs : List Char} (h : ',' ∉ cs) :
    directives cs = (Directive.ofSegment? cs).toList := by
  rw [directives, Text.splitOn_of_not_mem h]
  cases hx : Directive.ofSegment? cs <;> simp [hx]

theorem Directive.ofSegment?_cons_of_isBlank {c : Char} (h : Text.isBlank c = true)
    (segment : List Char) : ofSegment? (c :: segment) = ofSegment? segment := by
  rw [ofSegment?, ofSegment?, directive?, directive?, Text.trim_cons_of_isBlank h]

theorem directives_space (cs : List Char) : directives (' ' :: cs) = directives cs := by
  have hsplit : (' ' :: cs).splitOn ',' = (cs.splitOn ',').modifyHead (' ' :: ·) :=
    Text.splitOn_append_of_not_mem (a := [' ']) (by decide) cs
  rw [directives, hsplit, directives]
  cases cs.splitOn ',' with
  | nil => rfl
  | cons segment segments =>
    have hsegment := Directive.ofSegment?_cons_of_isBlank (c := ' ') rfl segment
    rw [List.modifyHead_cons, List.filterMap_cons, hsegment, List.filterMap_cons]

def isTokenChar (c : Char) : Bool := c.isAlphanum || "!#$%&'*+-.^_`|~".toList.contains c

def IsToken (name : List Char) : Prop := ∀ c ∈ name, isTokenChar c = true

instance (name : List Char) : Decidable (IsToken name) :=
  List.decidableBAll (isTokenChar · = true) name

theorem isBlank_of_isTokenChar {c : Char} (h : isTokenChar c = true) : Text.isBlank c = false := by
  rw [isTokenChar, Bool.or_eq_true] at h
  rcases h with halphanum | hsign
  · exact Text.isBlank_of_isAlphanum halphanum
  · have hsigns : "!#$%&'*+-.^_`|~".toList.all (!Text.isBlank ·) = true := by decide
    simpa using List.all_eq_true.mp hsigns c (List.contains_iff_mem.mp hsign)

theorem IsToken.not_mem {name : List Char} (hname : IsToken name) {sep : Char}
    (hsep : isTokenChar sep = false) : sep ∉ name := by
  intro hmem
  rw [hname sep hmem] at hsep
  cases hsep

/-- The first equals sign ends the name, and blanks around the argument and quotes inside these are
not part of it. -/
theorem directive?_append {name : List Char} (hname : '=' ∉ name) (argument : List Char) :
    directive? (name ++ '=' :: argument) =
      some ((Text.trim name).map Char.toLower,
        some (Text.trimWhile (· == '"') (Text.trim argument))) := by
  have hfront : '=' ∉ name.dropWhile Text.isBlank := by rwa [Text.mem_dropWhile_iff rfl]
  obtain ⟨c, cs, hcons⟩ : ∃ c cs, name.dropWhile Text.isBlank ++ '=' :: Text.trimEnd argument =
      c :: cs := by
    cases name.dropWhile Text.isBlank <;> simp
  rw [directive?, Text.trim_around rfl, hcons]
  simp only
  rw [← hcons, Text.splitOnce_append hfront]
  simp only [Text.trim_dropWhile, Text.trim_trimEnd]

theorem directive?_assignment {name : List Char} (hname : IsToken name) (argument : List Char) :
    directive? (name ++ '=' :: argument) =
      some (name.map Char.toLower, some (Text.trimWhile (· == '"') (Text.trim argument))) := by
  have htrim : Text.trim name = name :=
    Text.trimWhile_eq_self fun c hc => isBlank_of_isTokenChar (hname c hc)
  rw [directive?_append (hname.not_mem (by decide)), htrim]

theorem Directive.ofSegment?_assignment {name : List Char} (hname : IsToken name)
    (argument : List Char) :
    ofSegment? (name ++ '=' :: argument) =
      ofParts? (name.map Char.toLower) (some (Text.trimWhile (· == '"') (Text.trim argument))) := by
  rw [ofSegment?, directive?_assignment hname]
  rfl

theorem delta?_lower (argument : Option (List Char)) :
    delta? (argument.map (·.map Char.toLower)) = delta? argument := by
  cases argument with
  | none => rfl
  | some cs =>
    have hall : (cs.map Char.toLower).all Char.isDigit = cs.all Char.isDigit := by
      rw [List.all_map]
      exact congrArg cs.all (funext (Text.toLower_congr fun _ => Text.isDigit_of_isAlpha))
    rw [Option.map_some, delta?, delta?, hall, List.isEmpty_map]
    split
    · rename_i hdigits
      have hsame : cs.map Char.toLower = cs.map id := by
        apply List.map_congr_left
        intro c hc
        rw [Bool.and_eq_true, List.all_eq_true] at hdigits
        exact Text.toLower_of_isDigit (hdigits.2 c hc)
      rw [hsame, List.map_id]
    · rfl

theorem Directive.ofParts?_lower (name : List Char) (argument : Option (List Char)) :
    ofParts? name (argument.map (·.map Char.toLower)) = ofParts? name argument := by
  rw [ofParts?, ofParts?, delta?_lower]

theorem directive?_lower (segment : List Char) :
    directive? (segment.map Char.toLower) = (directive? segment).map fun (name, argument) =>
      (name, argument.map (·.map Char.toLower)) := by
  have htrim : ∀ cs, Text.trim (cs.map Char.toLower) = (Text.trim cs).map Char.toLower :=
    Text.trimWhile_map Text.isBlank_toLower
  have hequals := Text.splitOnce_map (Text.beq_toLower (show '='.isAlpha = false from rfl))
  have hquotes : ∀ cs, Text.trimWhile (· == '"') (cs.map Char.toLower) =
      (Text.trimWhile (· == '"') cs).map Char.toLower :=
    Text.trimWhile_map (Text.beq_toLower rfl)
  rw [directive?, htrim, directive?]
  cases Text.trim segment with
  | nil => rfl
  | cons c cs =>
    have hcut := hequals (c :: cs)
    rw [List.map_cons] at hcut
    simp only [List.map_cons, hcut]
    cases Text.splitOnce '=' (c :: cs) with
    | none => simp
    | some x => simp [htrim, hquotes]

theorem Directive.ofSegment?_lower (segment : List Char) :
    ofSegment? (segment.map Char.toLower) = ofSegment? segment := by
  rw [ofSegment?, ofSegment?, directive?_lower]
  cases directive? segment with
  | none => rfl
  | some x => exact ofParts?_lower x.1 x.2

theorem directives_lower (cs : List Char) : directives (cs.map Char.toLower) = directives cs := by
  rw [directives, Text.splitOn_map (Text.beq_toLower rfl), directives, List.filterMap_map]
  exact congrArg (List.filterMap · _) (funext Directive.ofSegment?_lower)

end CacheControl
end ResponseCache
