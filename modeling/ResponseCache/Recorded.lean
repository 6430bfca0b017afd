import ResponseCache.Backend

/-! # Stores that remember their calls -/
namespace ResponseCache

/-- A store together with the calls it got, the latest first. -/
structure Recorded (κ σ : Type) where
  store : σ
  calls : List κ := []

/-- Runs an operation on the store and notes the call, also when it fails. -/
def Recorded.note {κ σ α : Type} (call : κ) (act : Action σ α) : Action (Recorded κ σ) α := fun r =>
  let (answer, store) := act r.store
  (answer, { store, calls := call :: r.calls })

@[simp] theorem Recorded.note_answer {κ σ α : Type} (call : κ) (act : Action σ α)
    (r : Recorded κ σ) : (Recorded.note call act r).1 = (act r.store).1 := rfl

@[simp] theorem Recorded.note_store {κ σ α : Type} (call : κ) (act : Action σ α)
    (r : Recorded κ σ) : (Recorded.note call act r).2.store = (act r.store).2 := rfl

@[simp] theorem Recorded.note_calls {κ σ α : Type} (call : κ) (act : Action σ α)
    (r : Recorded κ σ) : (Recorded.note call act r).2.calls = call :: r.calls := rfl

end ResponseCache
