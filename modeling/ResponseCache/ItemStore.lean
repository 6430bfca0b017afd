import ResponseCache.Backend
import ResponseCache.KeyMap

/-!
# Stores of items

The items of a store outside the process, each with the time at which it vanishes, and the ways in
which calls can be made to fail. A call that fails changes no item.
-/
namespace ResponseCache

/-- `expiry` is what the writer asked for. -/
structure Item (ε : Type) where
  value : Bytes
  dropAt : Option Instant := none
  expiry : Option ε := none
deriving DecidableEq

structure Faults where
  /-- Every call fails with this reason. -/
  outage : Option String := none
  /-- Calls that still succeed before they fail. -/
  failsAfter : Option Nat := none
  /-- A write ends the task that runs it. -/
  writesAbort : Bool := false
deriving DecidableEq

/-- The fate of the next call. -/
def Faults.fate (f : Faults) : Except StoreError Unit × Faults :=
  match f.outage, f.failsAfter with
  | some reason, _ => (.error (.unavailable reason), f)
  | none, some 0 => (.error (.unavailable "connection reset"), f)
  | none, some (n + 1) => (.ok (), { f with failsAfter := some n })
  | none, none => (.ok (), f)

structure ItemStore (ε : Type) where
  items : KeyMap (Item ε) := .empty
  faults : Faults := {}

namespace ItemStore
variable {ε α : Type}

instance : Inhabited (ItemStore ε) := ⟨{}⟩

/-- Items vanish when their time has come. -/
def expire (now : Instant) (s : ItemStore ε) : ItemStore ε :=
  { s with items := s.items.filter fun _ item => now.isBefore item.dropAt }

/-- Runs a call on the items that are left, if its fate is good. -/
def call (now : Instant) (body : ItemStore ε → Except StoreError α × ItemStore ε)
    (s : ItemStore ε) : Except StoreError α × ItemStore ε :=
  match (s.expire now).faults.fate with
  | (.error e, faults) => (.error e, { s.expire now with faults })
  | (.ok (), faults) => body { s.expire now with faults }

def get (now : Instant) (key : String) : Action (ItemStore ε) (Option Bytes) :=
  call now fun s => (.ok ((s.items.find? key).map (·.value)), s)

def put (now : Instant) (key : String) (item : Item ε) : Action (ItemStore ε) Unit :=
  call now fun s =>
    if s.faults.writesAbort then (.error .writeAborted, s)
    else (.ok (), { s with items := s.items.insert key item })

/-- Removes keys and counts those that were there. -/
def remove (now : Instant) (keys : List String) : Action (ItemStore ε) Nat :=
  call now fun s =>
    let kept := s.items.filter fun k _ => !keys.contains k
    (.ok (s.items.size - kept.size), { s with items := kept })

/-- Puts a value in place without a call. -/
def place (key : String) (value : Bytes) (s : ItemStore ε) : ItemStore ε :=
  { s with items := s.items.insert key { value } }

@[simp] theorem expire_expire (now : Instant) (s : ItemStore ε) :
    (s.expire now).expire now = s.expire now := by
  simp [expire, KeyMap.filter, List.filter_filter]

theorem find?_expire (now : Instant) (s : ItemStore ε) (key : String) :
    (s.expire now).items.find? key = (s.items.find? key).filter fun item =>
      now.isBefore item.dropAt :=
  KeyMap.find?_filter ..

/-- Items that vanish now would be gone later. -/
theorem find?_expire_later {now later : Instant} (h : now ≤ later) (s : ItemStore ε)
    (key : String) :
    ((s.expire now).expire later).items.find? key = (s.expire later).items.find? key := by
  simp only [find?_expire, Option.filter_filter]
  apply congrArg (Option.filter · (s.items.find? key))
  funext item
  cases hlive : later.isBefore item.dropAt with
  | true => simp [Instant.isBefore_mono h hlive]
  | false => simp

@[simp] theorem expire_faults (now : Instant) (s : ItemStore ε) :
    (s.expire now).faults = s.faults := rfl

/-- A call fails, or runs on the items that are left. Only the faults may differ besides. -/
theorem call_cases (now : Instant) (body : ItemStore ε → Except StoreError α × ItemStore ε)
    (s : ItemStore ε) :
    ∃ faults, (∃ e, call now body s = (.error e, { s.expire now with faults })) ∨
      call now body s = body { s.expire now with faults } := by
  rw [call]
  rcases (s.expire now).faults.fate with ⟨_ | _, faults⟩
  · exact ⟨faults, .inl ⟨_, rfl⟩⟩
  · exact ⟨faults, .inr rfl⟩

/-- When nothing is to fail, a call runs on the items that are left. -/
theorem call_of_faultless (now : Instant) (body : ItemStore ε → Except StoreError α × ItemStore ε)
    {s : ItemStore ε} (h : s.faults = {}) : call now body s = body (s.expire now) := by
  have hleft : ({ s.expire now with faults := {} } : ItemStore ε) = s.expire now := by
    rw [← h]
    rfl
  have hfate : (s.expire now).faults.fate = (.ok (), {}) := by
    rw [expire_faults, h]
    rfl
  rw [call, hfate]
  exact congrArg body hleft

theorem put_of_faultless (now : Instant) (key : String) (item : Item ε) {s : ItemStore ε}
    (h : s.faults = {}) :
    put now key item s =
      (.ok (), { s.expire now with items := (s.expire now).items.insert key item }) := by
  have hgoes : ¬(s.expire now).faults.writesAbort = true := by
    rw [expire_faults, h]
    decide
  rw [put, call_of_faultless now _ h, if_neg hgoes]

end ItemStore
end ResponseCache
