/-!
# Matching a text against a list of steps

A step takes one character of a kind, or a run of characters. `accepts` says what a list of steps
means: some way of taking their parts in turn leaves nothing. `isMatch` decides it without trying
the ways one by one, by answering for all the ends of the text at once, last step first.
-/
namespace ResponseCache.Pattern

/-- A run is empty, or ends after a character of the kind `last`, or goes to the end of the text. -/
inductive Step
  | one (kind : Char → Bool)
  | run (last : Char → Bool)

/-- A text and all its ends. -/
def tails : List Char → List (List Char)
  | [] => [[]]
  | c :: cs => (c :: cs) :: tails cs

/-- What is left after one character of a kind. -/
def afterOne (kind : Char → Bool) : List Char → List (List Char)
  | [] => []
  | c :: cs => if kind c then [cs] else []

/-- The ends that follow a character of a kind, and the empty one. -/
def endsAfter (last : Char → Bool) : List Char → List (List Char)
  | [] => [[]]
  | c :: cs => if last c then cs :: endsAfter last cs else endsAfter last cs

def Step.remainders : Step → List Char → List (List Char)
  | .one kind, cs => afterOne kind cs
  | .run last, cs => cs :: endsAfter last cs

def accepts : List Step → List Char → Bool
  | [], cs => cs.isEmpty
  | s :: ss, cs => (s.remainders cs).any (accepts ss)

/-- One answer for each of the `tails` of a text. -/
def column (answer : List Char → Bool) (cs : List Char) : List Bool := (tails cs).map answer

/-- The column of a step that takes one character, from the column of what follows it. -/
def oneColumn (kind : Char → Bool) : List Char → List Bool → List Bool
  | c :: cs, _ :: later => (kind c && later.headD false) :: oneColumn kind cs later
  | _, _ => [false]

/-- Whether some end after a character of a kind has an answer. -/
def endsColumn (last : Char → Bool) : List Char → List Bool → List Bool
  | c :: cs, _ :: later =>
    let ends := endsColumn last cs later
    ((last c && later.headD false) || ends.headD false) :: ends
  | _, later => later

def Step.column : Step → List Char → List Bool → List Bool
  | .one kind, cs, later => oneColumn kind cs later
  | .run last, cs, later => List.zipWith (· || ·) later (endsColumn last cs later)

def answers (ss : List Step) (cs : List Char) : List Bool :=
  ss.foldr (fun s later => s.column cs later) (column List.isEmpty cs)

/-- Whether steps take a whole text. -/
def isMatch (ss : List Step) (cs : List Char) : Bool := (answers ss cs).headD false

@[simp] theorem column_nil (answer : List Char → Bool) : column answer [] = [answer []] := rfl

@[simp] theorem column_cons (answer : List Char → Bool) (c : Char) (cs : List Char) :
    column answer (c :: cs) = answer (c :: cs) :: column answer cs := rfl

@[simp] theorem head?_column (answer : List Char → Bool) (cs : List Char) :
    (column answer cs).head? = some (answer cs) := by
  cases cs <;> rfl

theorem oneColumn_column (kind : Char → Bool) (answer : List Char → Bool) (cs : List Char) :
    oneColumn kind cs (column answer cs) = column (fun cs => (afterOne kind cs).any answer) cs := by
  induction cs with
  | nil => rfl
  | cons c cs ih => cases h : kind c <;> simp [oneColumn, ih, afterOne, h]

theorem endsColumn_column (last : Char → Bool) (answer : List Char → Bool) (cs : List Char) :
    endsColumn last cs (column answer cs) =
      column (fun cs => (endsAfter last cs).any answer) cs := by
  induction cs with
  | nil => simp [endsColumn, endsAfter]
  | cons c cs ih => cases h : last c <;> simp [endsColumn, ih, endsAfter, h]

theorem zipWith_column (f g : List Char → Bool) (cs : List Char) :
    List.zipWith (· || ·) (column f cs) (column g cs) = column (fun cs => f cs || g cs) cs := by
  induction cs with
  | nil => rfl
  | cons c cs ih => simp [ih]

theorem step_column (s : Step) (answer : List Char → Bool) (cs : List Char) :
    s.column cs (column answer cs) = column (fun cs => (s.remainders cs).any answer) cs := by
  cases s with
  | one kind => exact oneColumn_column kind answer cs
  | run last => simp [Step.column, Step.remainders, endsColumn_column, zipWith_column]

theorem answers_eq (ss : List Step) (cs : List Char) : answers ss cs = column (accepts ss) cs := by
  induction ss with
  | nil => rfl
  | cons s ss ih =>
    show s.column cs (answers ss cs) = _
    rw [ih, step_column]
    rfl

theorem isMatch_eq_accepts (ss : List Step) (cs : List Char) : isMatch ss cs = accepts ss cs := by
  simp [isMatch, answers_eq]

theorem mem_tails {t cs : List Char} : t ∈ tails cs ↔ ∃ a, cs = a ++ t := by
  induction cs with
  | nil => simp [tails]
  | cons c cs ih =>
    simp only [tails, List.mem_cons, ih]
    constructor
    · rintro (rfl | ⟨a, rfl⟩)
      · exact ⟨[], rfl⟩
      · exact ⟨c :: a, rfl⟩
    · rintro ⟨a, h⟩
      cases a with
      | nil => exact .inl h.symm
      | cons b a => exact .inr ⟨a, (List.cons.inj h).2⟩

/-- A run of any characters may stop anywhere. -/
theorem mem_remainders_run {t cs : List Char} :
    t ∈ (Step.run fun _ => true).remainders cs ↔ ∃ a, cs = a ++ t := by
  rw [← mem_tails]
  induction cs with
  | nil => simp [Step.remainders, endsAfter, tails]
  | cons c cs ih =>
    simp only [Step.remainders, endsAfter, if_true, tails, List.mem_cons] at ih ⊢
    rw [ih]

theorem accepts_one_iff {kind : Char → Bool} {ss : List Step} {cs : List Char} :
    accepts (.one kind :: ss) cs = true ↔
      ∃ c rest, cs = c :: rest ∧ kind c = true ∧ accepts ss rest = true := by
  cases cs with
  | nil => simp [accepts, Step.remainders, afterOne]
  | cons c rest => cases h : kind c <;> simp [accepts, Step.remainders, afterOne, and_assoc, h]

theorem accepts_same_iff {a : Char} {ss : List Step} {cs : List Char} :
    accepts (.one (· == a) :: ss) cs = true ↔ ∃ rest, cs = a :: rest ∧ accepts ss rest = true := by
  simp only [accepts_one_iff, beq_iff_eq]
  constructor
  · rintro ⟨_, rest, hcs, rfl, h⟩
    exact ⟨rest, hcs, h⟩
  · rintro ⟨rest, hcs, h⟩
    exact ⟨a, rest, hcs, rfl, h⟩

theorem accepts_anyRun_iff {ss : List Step} {cs : List Char} :
    accepts (.run (fun _ => true) :: ss) cs = true ↔
      ∃ run rest, cs = run ++ rest ∧ accepts ss rest = true := by
  simp only [accepts, List.any_eq_true, mem_remainders_run]
  constructor
  · rintro ⟨rest, ⟨run, hcs⟩, h⟩
    exact ⟨run, rest, hcs, h⟩
  · rintro ⟨run, rest, hcs, h⟩
    exact ⟨rest, ⟨run, hcs⟩, h⟩

end ResponseCache.Pattern
