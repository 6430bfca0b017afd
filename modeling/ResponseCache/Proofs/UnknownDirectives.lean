import ResponseCache.Proofs.Merging

/-!
# Directives of unknown names

A directive whose name means nothing says nothing. A quoted argument is no part of that: commas end
directives inside quotes as well, so what follows the first comma of the argument is read as
directives of their own.
-/
namespace ResponseCache.CacheControl

def names : List String :=
  ["no-store", "no-cache", "must-revalidate", "immutable", "public", "private", "max-age",
    "stale-while-revalidate", "stale-if-error"]

def IsUnknown (name : String) : Prop := ∀ known ∈ names, Text.sameName name known = false

instance (name : String) : Decidable (IsUnknown name) :=
  inferInstanceAs (Decidable (∀ known ∈ names, _))

theorem IsUnknown.ofParts? {name : String} (h : IsUnknown name) (argument : Option (List Char)) :
    Directive.ofParts? (Text.lower name) argument = none := by
  have hne : ∀ known ∈ names, Text.lower name ≠ known.toList := by
    intro known hknown heq
    have hlower : ∀ known ∈ names, Text.lower known = known.toList := by decide
    have hnot := h known hknown
    rw [Text.sameName, heq, hlower known hknown, beq_self_eq_true] at hnot
    cases hnot
  simp only [names, List.forall_mem_cons] at hne
  simp only [Directive.ofParts?, hne, if_false]

theorem directives_of_unknown {name : String} (hname : IsToken name.toList)
    (hunknown : IsUnknown name) {argument : List Char} (hcomma : ',' ∉ argument) :
    directives (name.toList ++ '=' :: argument) = [] := by
  have hbefore : ',' ∉ name.toList := hname.not_mem (by decide)
  have hwhole : ',' ∉ name.toList ++ '=' :: argument := by simp [hbefore, hcomma]
  have hnone := hunknown.ofParts? (some (Text.trimWhile (· == '"') (Text.trim argument)))
  rw [directives_of_not_mem hwhole, Directive.ofSegment?_assignment hname]
  exact congrArg Option.toList hnone

/-- What gets out of a quoted argument: all that follows its first comma, with the closing quote. -/
def leak (content : String) : Policy :=
  match Text.splitOnce ',' content.toList with
  | none => {}
  | some (_, rest) => read (String.ofList (rest ++ ['"']))

theorem leak_of_not_mem {content : String} (h : ',' ∉ content.toList) : leak content = {} := by
  rw [leak, Text.splitOnce_none_iff.mpr h]

theorem read_unknown {name : String} (hname : IsToken name.toList) (hunknown : IsUnknown name)
    (content : String) : read (name ++ "=\"" ++ content ++ "\"") = leak content := by
  have hlist : (name ++ "=\"" ++ content ++ "\"").toList =
      name.toList ++ '=' :: '"' :: (content.toList ++ ['"']) := by simp
  rw [read_eq_mergeAll, hlist, leak]
  cases hcut : Text.splitOnce ',' content.toList with
  | none =>
    have hcomma : ',' ∉ '"' :: (content.toList ++ ['"']) := by
      simp [Text.splitOnce_none_iff.mp hcut]
    rw [directives_of_unknown hname hunknown hcomma]
    rfl
  | some parts =>
    obtain ⟨first, rest⟩ := parts
    obtain ⟨hcontent, hfirst⟩ := Text.splitOnce_some hcut
    have hcomma : ',' ∉ '"' :: first := by simp [hfirst]
    have hsplit : name.toList ++ '=' :: '"' :: (content.toList ++ ['"']) =
        (name.toList ++ '=' :: '"' :: first) ++ ',' :: (rest ++ ['"']) := by simp [hcontent]
    rw [hsplit, directives_comma, directives_of_unknown hname hunknown hcomma, List.nil_append]
    show _ = read (String.ofList (rest ++ ['"']))
    rw [read_eq_mergeAll, String.toList_ofList]

/-- A directive of an unknown name with a quoted argument adds what follows the first comma of the
argument, and nothing else. It changes no value if there is no comma, and in general exactly if what
follows the comma says nothing. -/
theorem unknown_quoted_leaks {name : String} (hname : IsToken name.toList)
    (hunknown : IsUnknown name) (content : String) :
    (∀ v : String, read (v ++ ", " ++ (name ++ "=\"" ++ content ++ "\"")) =
      (read v).merge (leak content)) ∧
      (',' ∉ content.toList → leak content = {}) ∧
      ((∀ v : String, read (v ++ ", " ++ (name ++ "=\"" ++ content ++ "\"")) = read v) ↔
        leak content = {}) := by
  have hread : ∀ v : String, read (v ++ ", " ++ (name ++ "=\"" ++ content ++ "\"")) =
      (read v).merge (leak content) := by
    intro v
    rw [read_comma_space, read_unknown hname hunknown]
  refine ⟨hread, leak_of_not_mem, ?_, ?_⟩
  · intro hsame
    have hempty : read "" = {} := rfl
    have hstart := (hread "").symm.trans (hsame "")
    rwa [hempty, Policy.empty_merge] at hstart
  · intro hnothing v
    rw [hread, hnothing, Policy.merge_empty]

/-- The last directive in the quotes keeps the closing one, which a lifetime survives and a flag
does not. -/
theorem unknown_quoted_leaks_lifetime :
    IsToken "Community".toList ∧ IsUnknown "Community" ∧
      read "public, Community=\"UCI, private ,max-age=5, stale-if-error=9\"" =
        { ttl := some (.ofSeconds 5), visibility := .privately,
          staleIfError := some (.ofSeconds 9) } ∧
      read "public, Community=\"UCI, no-store\"" = { visibility := .publicly } := by
  have hname : IsToken "Community".toList := by decide
  have hunknown : IsUnknown "Community" := by decide
  obtain ⟨hlifetimes, -⟩ :=
    unknown_quoted_leaks hname hunknown "UCI, private ,max-age=5, stale-if-error=9"
  obtain ⟨-, -, hflag⟩ := unknown_quoted_leaks hname hunknown "UCI, no-store"
  exact ⟨hname, hunknown, (hlifetimes "public").trans (by decide),
    (hflag.mpr (by decide) "public").trans (by decide)⟩

/-- A quoted text with a comma can keep a response from being stored. -/
theorem unknown_quoted_not_ignored :
    ¬∀ v name content : String, IsToken name.toList → IsUnknown name → '"' ∉ content.toList →
      '\\' ∉ content.toList → read (v ++ ", " ++ (name ++ "=\"" ++ content ++ "\"")) = read v := by
  intro hignored
  have hsame :=
    hignored "max-age=60" "ext" "a, no-store, b" (by decide) (by decide) (by decide) (by decide)
  exact absurd hsame (by decide)

end ResponseCache.CacheControl
