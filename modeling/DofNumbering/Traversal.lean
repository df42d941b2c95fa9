import DofNumbering.Local.IndexSet

namespace DofNumbering.Traversal

/-! Visiting the elements of a basis.

Every visit binds the view, then the index set, and unbinds both again.
-/

variable {ε σ α : Type}

/-- A view and an index set that are used for one element after the other. -/
structure Worker where
  view : LocalView
  set : LocalIndexSet

def Worker.create (basis : Basis) : Worker := ⟨.create basis, .create basis⟩

/-- Visits the given elements in order, up to the first failure. -/
def visit (step : σ → LocalView → LocalIndexSet → Except (Failure ε) σ) :
    List Nat → Worker → σ → Except (Failure ε) σ
  | [], _, state => .ok state
  | element :: rest, worker, state =>
      match withBound worker.view worker.set (Entity.element element) (step state) with
      | (.error fault, _, _) => .error (.fault fault)
      | (.ok (.error failure), _, _) => .error failure
      | (.ok (.ok next), view, set) => visit step rest ⟨view, set⟩ next

/-- Visits all elements in ascending order, up to the first failure. -/
def tryForEach (basis : Basis) (step : σ → LocalView → LocalIndexSet → Except (Failure ε) σ)
    (state : σ) : Except (Failure ε) σ :=
  visit step (List.range (basis.grid.size 0)) (.create basis) state

/-- Visits all elements in ascending order. -/
def forEach (basis : Basis) (step : σ → LocalView → LocalIndexSet → σ) (state : σ) :
    Except (Failure Empty) σ :=
  tryForEach basis (fun state view set => .ok (step state view set)) state

/-- Visits the elements that a schedule hands to each worker, and collects the
values of all visits. -/
def onWorkers (basis : Basis) (value : LocalView → LocalIndexSet → α) :
    (schedule : List (List Nat)) → Except (Failure Empty) (List α)
  | [] => .ok []
  | elements :: rest => do
      let values ← visit (fun values view set => .ok (value view set :: values)) elements
        (.create basis) []
      let others ← onWorkers basis value rest
      .ok (values.reverse ++ others)

/-- The schedule by which workers take the elements in turn. -/
def roundRobin (workers numElements : Nat) : List (List Nat) :=
  (List.range workers).map (fun worker =>
    (List.range numElements).filter (fun element => element % workers = worker))

end DofNumbering.Traversal
