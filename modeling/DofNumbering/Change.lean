import DofNumbering.Fault

namespace DofNumbering

/-! Changes of a state in place.

A change that stops at a fault does not take back what it has changed before.
-/

/-- A change of a state that also has a value. -/
abbrev Change (σ α : Type) := EStateM Fault σ α

instance (σ : Type) : MonadLift (Except Fault) (Change σ) where
  monadLift result := fun state =>
    match result with
    | .ok value => .ok value state
    | .error fault => .error fault state

namespace Change

variable {σ : Type}

/-- The state after a change, or the fault that stopped it. -/
def result (change : Change σ Unit) (state : σ) : Except Fault σ :=
  match change state with
  | .ok _ next => .ok next
  | .error fault _ => .error fault

/-- The state that a change leaves, also when it was stopped. -/
def after (change : Change σ Unit) (state : σ) : σ :=
  match change state with
  | .ok _ next => next
  | .error _ next => next

/-- Replaces the whole state or, at a fault, changes nothing. -/
def replace (next : σ → Except Fault σ) : Change σ Unit := fun state =>
  match next state with
  | .ok new => .ok () new
  | .error fault => .error fault state

end Change

end DofNumbering
