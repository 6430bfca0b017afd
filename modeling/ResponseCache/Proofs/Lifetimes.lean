import ResponseCache.Proofs.Merging

/-!
# Lifetimes of a field value

A lifetime is a directive of one of three names with a run of digits as its argument. It counts for
the number that the digits write, whatever its length, and for 2^31 seconds if that is less. A field
value has the first lifetime of each name, and directives of the name without such an argument count
for nothing.
-/
namespace ResponseCache

namespace Text

def Wraps (p : Char → Bool) (inner cs : List Char) : Prop :=
  ∃ before after, cs = before ++ (inner ++ after) ∧ (∀ c ∈ before, p c = true) ∧
    ∀ c ∈ after, p c = true

theorem wraps_trimWhile (p : Char → Bool) (cs : List Char) : Wraps p (trimWhile p cs) cs := by
  have hall : ∀ l : List Char, ∀ c ∈ l.takeWhile p, p c = true :=
    fun l => List.all_eq_true.mp List.all_takeWhile
  refine ⟨cs.takeWhile p, ((cs.dropWhile p).reverse.takeWhile p).reverse, ?_, hall cs, ?_⟩
  · rw [trimWhile, ← List.reverse_append, List.takeWhile_append_dropWhile, List.reverse_reverse,
      List.takeWhile_append_dropWhile]
  · intro c hc
    exact hall _ c (List.mem_reverse.mp hc)

theorem Wraps.trimWhile_eq {p : Char → Bool} {inner cs : List Char} (h : Wraps p inner cs)
    (hinner : ∀ c ∈ inner, p c = false) : trimWhile p cs = inner := by
  obtain ⟨before, after, rfl, hbefore, hafter⟩ := h
  rw [trimWhile, List.dropWhile_append_of_pos hbefore]
  cases inner with
  | nil =>
    rw [List.nil_append, List.dropWhile_eq_nil_iff.mpr hafter]
    rfl
  | cons c inner =>
    have hfront : (c :: inner ++ after).dropWhile p = c :: inner ++ after :=
      List.dropWhile_cons_of_neg (by simp [hinner c])
    rw [hfront, List.reverse_append,
      List.dropWhile_append_of_pos fun d hd => hafter d (List.mem_reverse.mp hd),
        dropWhile_eq_self fun d hd => hinner d (List.mem_reverse.mp hd), List.reverse_reverse]

theorem Wraps.mem {p : Char → Bool} {inner cs : List Char} (h : Wraps p inner cs) {c : Char}
    (hc : c ∈ cs) : p c = true ∨ c ∈ inner := by
  obtain ⟨before, after, rfl, hbefore, hafter⟩ := h
  rcases List.mem_append.mp hc with hc | hc
  · exact .inl (hbefore c hc)
  · rcases List.mem_append.mp hc with hc | hc
    · exact .inr hc
    · exact .inl (hafter c hc)

end Text

namespace CacheControl

def number (digits : List Char) : Nat :=
  Nat.ofDigits 10 (digits.reverse.map fun c => c.toNat - '0'.toNat)

theorem ofDigitChars_eq_number (digits : List Char) :
    Nat.ofDigitChars 10 digits 0 = number digits := by
  rw [number, Nat.ofDigits_eq_foldr, List.foldr_map, List.foldr_reverse, Nat.ofDigitChars_eq_foldl]
  simp only [Nat.cast_id, Nat.add_comm]

theorem delta?_eq_some_iff {digits : List Char} {d : Duration} : delta? (some digits) = some d ↔
    digits ≠ [] ∧ (∀ c ∈ digits, c.isDigit = true) ∧
      d.nanos = min (number digits) (2 ^ 31) * nanosPerSecond := by
  have hvalid : (!digits.isEmpty && digits.all Char.isDigit) = true ↔
      digits ≠ [] ∧ ∀ c ∈ digits, c.isDigit = true := by
    simp
  have hexact : (Duration.ofSeconds (min (number digits) maxDelta)).nanos =
      min (number digits) (2 ^ 31) * nanosPerSecond := by
    apply Duration.ofSeconds_nanos
    simp only [maxDelta]
    omega
  rw [delta?, ofDigitChars_eq_number, ← hexact, ← Duration.ext_iff]
  split
  · rename_i h
    obtain ⟨hsome, hdigits⟩ := hvalid.mp h
    rw [Option.some.injEq]
    constructor
    · exact fun heq => ⟨hsome, hdigits, heq.symm⟩
    · exact fun heq => heq.2.2.symm
  · rename_i h
    constructor
    · intro heq
      cases heq
    · rintro ⟨hsome, hdigits, -⟩
      exact absurd (hvalid.mpr ⟨hsome, hdigits⟩) h

/-- The directives that take a number of seconds. -/
inductive Lifetime | maxAge | staleWhileRevalidate | staleIfError

namespace Lifetime

def name : Lifetime → String
  | maxAge => "max-age"
  | staleWhileRevalidate => "stale-while-revalidate"
  | staleIfError => "stale-if-error"

def of (p : Policy) : Lifetime → Option Duration
  | maxAge => p.ttl
  | staleWhileRevalidate => p.staleWhileRevalidate
  | staleIfError => p.staleIfError

def directive : Lifetime → Duration → Directive
  | maxAge => .maxAge | staleWhileRevalidate => .staleWhileRevalidate
  | staleIfError => .staleIfError

/-- A directive that gives the lifetime: its name in any letter case, and digits, with blanks around
each of them, and quotes around the digits. -/
inductive Gives (x : Lifetime) : List Char → Duration → Prop
  | intro {spelled name digits quoted argument : List Char} {d : Duration}
      (hspelled : Text.sameName (String.ofList spelled) x.name = true)
      (hname : Text.Wraps Text.isBlank spelled name)
      (hsome : digits ≠ []) (hdigits : ∀ c ∈ digits, c.isDigit = true)
      (hquoted : Text.Wraps (· == '"') digits quoted)
      (hargument : Text.Wraps Text.isBlank quoted argument)
      (hexact : d.nanos = min (number digits) (2 ^ 31) * nanosPerSecond) :
      Gives x (name ++ '=' :: argument) d

def given? (x : Lifetime) (segment : List Char) : Option Duration :=
  (directive? segment).bind fun (spelled, argument) =>
    if spelled = x.name.toList then delta? argument else none

theorem sameName_iff {x : Lifetime} {spelled : List Char} :
    Text.sameName (String.ofList spelled) x.name = true ↔
      spelled.map Char.toLower = x.name.toList := by
  have hlower : Text.lower x.name = x.name.toList := by cases x <;> decide
  rw [Text.sameName_iff, hlower, Text.lower, String.toList_ofList]

theorem isToken_name (x : Lifetime) : IsToken x.name.toList := by cases x <;> decide

theorem apart_of_spelled {x : Lifetime} {spelled : List Char}
    (h : spelled.map Char.toLower = x.name.toList) :
    ∀ c ∈ spelled, Text.isBlank c = false ∧ c ≠ '=' := by
  intro c hc
  have htoken : isTokenChar c.toLower = true :=
    x.isToken_name c.toLower (h ▸ List.mem_map_of_mem hc)
  refine ⟨?_, ?_⟩
  · rw [← Text.isBlank_toLower]
    exact isBlank_of_isTokenChar htoken
  · rintro rfl
    exact absurd htoken (by decide)

theorem given?_append {name : List Char} (hname : '=' ∉ name) (x : Lifetime)
    (argument : List Char) :
    x.given? (name ++ '=' :: argument) =
      if (Text.trim name).map Char.toLower = x.name.toList then
        delta? (some (Text.trimWhile (· == '"') (Text.trim argument)))
      else none := by
  rw [given?, directive?_append hname]
  rfl

theorem given?_of_not_mem {segment : List Char} (h : '=' ∉ segment) (x : Lifetime) :
    x.given? segment = none := by
  have htrim : '=' ∉ Text.trim segment := by rwa [Text.mem_trim_iff rfl]
  rw [given?, directive?]
  cases hcs : Text.trim segment with
  | nil => rfl
  | cons c cs =>
    rw [hcs] at htrim
    simp [Text.splitOnce_none_iff.mpr htrim, delta?]

theorem gives_iff {x : Lifetime} {segment : List Char} {d : Duration} :
    x.Gives segment d ↔ x.given? segment = some d := by
  constructor
  · rintro @⟨spelled, name, digits, quoted, argument, d, hspelled, hname, hsome, hdigits, hquoted,
      hargument, hexact⟩
    have hlower := sameName_iff.mp hspelled
    have hequals : '=' ∉ name := by
      intro hmem
      rcases hname.mem hmem with hblank | hmem
      · exact absurd hblank (by decide)
      · exact (apart_of_spelled hlower '=' hmem).2 rfl
    have hblanks : ∀ c ∈ quoted, Text.isBlank c = false := by
      intro c hc
      rcases hquoted.mem hc with hquote | hc
      · rw [beq_iff_eq.mp hquote]
        rfl
      · exact Text.isBlank_of_isDigit (hdigits c hc)
    have htrim : Text.trim name = spelled :=
      hname.trimWhile_eq fun c hc => (apart_of_spelled hlower c hc).1
    have hinside : Text.trim argument = quoted := hargument.trimWhile_eq hblanks
    have hunquoted : Text.trimWhile (· == '"') quoted = digits :=
      hquoted.trimWhile_eq fun c hc => Text.beq_of_isDigit (hdigits c hc) rfl
    rw [given?_append hequals, htrim, if_pos hlower, hinside, hunquoted]
    exact delta?_eq_some_iff.mpr ⟨hsome, hdigits, hexact⟩
  · intro h
    cases hcut : Text.splitOnce '=' segment with
    | none =>
      rw [given?_of_not_mem (Text.splitOnce_none_iff.mp hcut)] at h
      cases h
    | some parts =>
      obtain ⟨name, argument⟩ := parts
      obtain ⟨rfl, hname⟩ := Text.splitOnce_some hcut
      rw [given?_append hname] at h
      split at h
      · rename_i hspelled
        obtain ⟨hsome, hdigits, hexact⟩ := delta?_eq_some_iff.mp h
        exact .intro (sameName_iff.mpr hspelled) (Text.wraps_trimWhile _ name) hsome hdigits
          (Text.wraps_trimWhile _ _) (Text.wraps_trimWhile _ argument) hexact
      · cases h

theorem gives_append_iff {name : List Char} (hname : '=' ∉ name) {x : Lifetime}
    {argument : List Char} {d : Duration} :
    x.Gives (name ++ '=' :: argument) d ↔
      Text.sameName (String.ofList (Text.trim name)) x.name = true ∧
        Text.trimWhile (· == '"') (Text.trim argument) ≠ [] ∧
        (∀ c ∈ Text.trimWhile (· == '"') (Text.trim argument), c.isDigit = true) ∧
        d.nanos = min (number (Text.trimWhile (· == '"') (Text.trim argument))) (2 ^ 31) *
          nanosPerSecond := by
  rw [gives_iff, given?_append hname, sameName_iff]
  split
  · rename_i hspelled
    rw [delta?_eq_some_iff, and_iff_right hspelled]
  · rename_i hspelled
    simp [hspelled]

theorem of_merge (x : Lifetime) (p q : Policy) : x.of (p.merge q) = (x.of p).or (x.of q) := by
  cases x <;> rfl

theorem of_mergeAll (x : Lifetime) (ps : List Policy) :
    x.of (Policy.mergeAll ps) = (ps.filterMap x.of).head? := by
  induction ps with
  | nil => cases x <;> rfl
  | cons p ps ih =>
    rw [Policy.mergeAll_cons, of_merge, ih, List.filterMap_cons]
    cases x.of p <;> rfl

/-- No other directive says anything of it. -/
theorem of_policy_eq_some_iff {x : Lifetime} {y : Directive} {d : Duration} :
    x.of y.policy = some d ↔ y = x.directive d := by
  cases x <;> cases y <;> simp [of, directive, Directive.policy, Directive.apply]

theorem ofParts?_eq_directive_iff {x : Lifetime} {spelled : List Char}
    {argument : Option (List Char)} {d : Duration} :
    Directive.ofParts? spelled argument = some (x.directive d) ↔
      spelled = x.name.toList ∧ delta? argument = some d := by
  constructor
  · intro h
    rw [Directive.ofParts?] at h
    split_ifs at h with _ _ _ _ _ _ hage hwhile herror
    -- A flag is no lifetime, and of the three lifetimes one has the constructor of `x`.
    any_goals
      cases x <;> cases h
    all_goals
      obtain ⟨seconds, hdelta, hsame⟩ := Option.map_eq_some_iff.mp h
      cases x <;> cases hsame
      exact ⟨by assumption, hdelta⟩
  · rintro ⟨rfl, hdelta⟩
    have hname : Directive.ofParts? x.name.toList argument = (delta? argument).map x.directive := by
      cases x <;> rfl
    rw [hname, hdelta, Option.map_some]

theorem of_ofSegment? (x : Lifetime) (segment : List Char) :
    (Directive.ofSegment? segment).bind (fun y => x.of y.policy) = x.given? segment := by
  rw [Directive.ofSegment?, given?]
  cases directive? segment with
  | none => rfl
  | some parts =>
    ext d
    simp only [Option.bind_some, Option.bind_eq_some_iff, of_policy_eq_some_iff, exists_eq_right,
      ofParts?_eq_directive_iff, Option.ite_none_right_eq_some]

theorem of_read (x : Lifetime) (value : String) :
    x.of (read value) = (value.toList.splitOn ',').findSome? x.given? := by
  rw [read_eq_mergeAll, of_mergeAll, List.filterMap_map, directives, List.filterMap_filterMap,
    ← List.head?_filterMap]
  exact congrArg _ (congrArg (List.filterMap · _) (funext (of_ofSegment? x)))

/-- A field value has a lifetime if and only if one of its directives gives it and no earlier one
gives any. A directive of the name with an equals sign gives the number that its argument writes, at
most 2^31 seconds, if the argument is digits only and not empty once blanks and then quotes around
it are gone. All other directives give nothing. -/
theorem first_given_holds (x : Lifetime) :
    (∀ (value : String) (d : Duration), x.of (read value) = some d ↔
      ∃ before segment after, value.toList.splitOn ',' = before ++ segment :: after ∧
        x.Gives segment d ∧
        ∀ other ∈ before, ∀ d', ¬x.Gives other d') ∧
      (∀ (name argument : List Char) (d : Duration), '=' ∉ name →
        (x.Gives (name ++ '=' :: argument) d ↔
          Text.sameName (String.ofList (Text.trim name)) x.name = true ∧
            let digits := Text.trimWhile (· == '"') (Text.trim argument)
            digits ≠ [] ∧ (∀ c ∈ digits, c.isDigit = true) ∧
              d.nanos = min (number digits) (2 ^ 31) * nanosPerSecond)) ∧
      ∀ (segment : List Char) (d : Duration), '=' ∉ segment → ¬x.Gives segment d := by
  refine ⟨?_, ?_, ?_⟩
  · intro value d
    rw [of_read, List.findSome?_eq_some_iff]
    simp only [gives_iff, ← Option.eq_none_iff_forall_ne_some]
  · intro name argument d hname
    exact gives_append_iff hname
  · intro segment d hmissing
    rw [gives_iff, given?_of_not_mem hmissing]
    intro h
    cases h

/-- A bare name, an empty argument and one with a letter in it come first, and leading zeros and a
number past every machine word are read for what they are. -/
theorem first_given_holds_after_malformed :
    let value :=
      "stale-if-error=99999999999999999999999,max-age,max-age=,MAX-AGE=\"1x\",Max-Age = \"000060\" ,max-age=5"
    staleIfError.of (read value) = some (.ofSeconds (2 ^ 31)) ∧
      maxAge.of (read value) = some (.ofSeconds 60) := by
  intro value
  obtain ⟨herror, hnumber, -⟩ := first_given_holds .staleIfError
  obtain ⟨hage, hargument, hmissing⟩ := first_given_holds .maxAge
  have hcut : value.toList.splitOn ',' =
      ["stale-if-error=99999999999999999999999".toList, "max-age".toList, "max-age=".toList,
        "MAX-AGE=\"1x\"".toList, "Max-Age = \"000060\" ".toList, "max-age=5".toList] := by
    decide +kernel
  have hmost : staleIfError.Gives "stale-if-error=99999999999999999999999".toList
      (.ofSeconds (2 ^ 31)) :=
    (hnumber "stale-if-error".toList "99999999999999999999999".toList _ (by decide)).mpr
      ⟨by decide, by decide, List.all_eq_true.mp (by decide), rfl⟩
  have hsixty : maxAge.Gives "Max-Age = \"000060\" ".toList (.ofSeconds 60) :=
    (hargument "Max-Age ".toList " \"000060\" ".toList _ (by decide)).mpr
      ⟨by decide, by decide, List.all_eq_true.mp (by decide), rfl⟩
  refine ⟨(herror value _).mpr ⟨[], _, _, hcut, hmost, nofun⟩,
    (hage value _).mpr ⟨[_, _, _, _], _, _, hcut, hsixty, ?_⟩⟩
  simp only [List.forall_mem_cons]
  refine ⟨fun d h => ?_, fun d h => ?_, fun d h => ?_, fun d h => ?_, nofun⟩
  · have hname :=
      ((hargument "stale-if-error".toList "99999999999999999999999".toList d (by decide)).mp h).1
    exact absurd hname (by decide)
  · exact hmissing _ d (by decide) h
  · exact ((hargument "max-age".toList [] d (by decide)).mp h).2.1 rfl
  · have hletter :=
      ((hargument "MAX-AGE".toList "\"1x\"".toList d (by decide)).mp h).2.2.1 'x' (by decide)
    exact absurd hletter (by decide)

end Lifetime
end CacheControl
end ResponseCache
