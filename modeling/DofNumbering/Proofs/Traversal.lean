import DofNumbering.Proofs.Local.IndexSet
import DofNumbering.Traversal

namespace DofNumbering

/-! Visiting elements with one view and one index set after the other.

The view and the set are used again for every element, and show the numbering of
the basis on each of them.
-/

variable {basis : Basis} {numbering : Numbering} {element : Nat}

theorem exists_binds {view : LocalView} {set : LocalIndexSet} (of : view.Of basis)
    (same : set.basis = basis) (realizes : basis.Realizes numbering element)
    (inGrid : element < basis.grid.size 0) (room : numbering.places < Index.limit) :
    ∃ boundView boundSet, view.bind (Entity.element element) = .ok boundView ∧
      LocalIndexSet.bind boundView set = .ok () boundSet ∧ boundSet.Shows numbering element ∧
      boundView.unbind.Of basis ∧ boundSet.unbind.basis = basis := by
  obtain ⟨boundView, bound, boundOf, isElement, binds⟩ :=
    LocalView.exists_bind of realizes inGrid room
  have isBound : boundView.isBound = true := by
    rw [LocalView.isBound, isElement, Option.isSome_some]
  obtain ⟨boundSet, written, boundSame, shown⟩ :=
    LocalIndexSet.exists_bind same boundOf isBound binds
  exact ⟨boundView, boundSet, bound, written, shown, ⟨boundOf.owner, boundOf.shape⟩, boundSame⟩

namespace Traversal

variable {ε σ : Type} {step : σ → LocalView → LocalIndexSet → Except (Failure ε) σ}

/-- Binding to one element after the other shows these views and index sets. -/
inductive Visits : Worker → List Nat → List (LocalView × LocalIndexSet) → Prop where
  | nil {worker : Worker} : Visits worker [] []
  | cons {worker : Worker} {element : Nat} {rest : List Nat} {view : LocalView}
      {set : LocalIndexSet} {shown : List (LocalView × LocalIndexSet)}
      (bindsView : worker.view.bind (Entity.element element) = .ok view)
      (bindsSet : LocalIndexSet.bind view worker.set = .ok () set)
      (others : Visits ⟨view.unbind, set.unbind⟩ rest shown) :
      Visits worker (element :: rest) ((view, set) :: shown)

variable {worker : Worker} {elements rest : List Nat} {state : σ} {view : LocalView}
  {set : LocalIndexSet} {shown : List (LocalView × LocalIndexSet)}

theorem Visits.length_eq (visits : Visits worker elements shown) :
    elements.length = shown.length := by
  induction visits with
  | nil => rfl
  | cons _ _ _ ih => exact congrArg (· + 1) ih

theorem visit_cons (bindsView : worker.view.bind (Entity.element element) = .ok view)
    (bindsSet : LocalIndexSet.bind view worker.set = .ok () set) :
    visit step (element :: rest) worker state =
      step state view set >>= visit step rest ⟨view.unbind, set.unbind⟩ := by
  simp only [visit, withBound, bindsView, bindsSet]
  cases step state view set <;> rfl

/-- A traversal by steps that cannot fail gets to the end exactly by binding everywhere. -/
theorem exists_visits_of_visit {next : σ → LocalView → LocalIndexSet → σ} {final : σ}
    (run : visit (fun state view set => (.ok (next state view set) : Except (Failure ε) σ))
      elements worker state = .ok final) :
    ∃ shown, Visits worker elements shown ∧
      final = shown.foldl (fun state pair => next state pair.1 pair.2) state := by
  induction elements generalizing worker state with
  | nil => exact ⟨[], .nil, (Except.ok.inj run).symm⟩
  | cons element rest ih =>
      cases bindsView : worker.view.bind (Entity.element element) with
      | error fault => simp [visit, withBound, bindsView] at run
      | ok view =>
          cases bindsSet : LocalIndexSet.bind view worker.set with
          | error fault left => simp [visit, withBound, bindsView, bindsSet] at run
          | ok _ set =>
              rw [visit_cons bindsView bindsSet, ok_bind] at run
              obtain ⟨shown, visits, rfl⟩ := ih run
              exact ⟨(view, set) :: shown, .cons bindsView bindsSet visits, rfl⟩

/-- What a traversal collects from all elements. -/
theorem exists_visits_of_forEach {α : Type} {value : LocalIndexSet → α} {values : List α}
    (run : forEach basis (fun values _ set => values ++ [value set]) [] = .ok values) :
    ∃ shown, Visits (.create basis) (List.range (basis.grid.size 0)) shown ∧
      values = shown.map (fun pair => value pair.2) := by
  obtain ⟨shown, visits, rfl⟩ := exists_visits_of_visit run
  refine ⟨shown, visits, ?_⟩
  rw [List.foldl_append_eq_append, List.nil_append, ← List.flatMap_def, ← List.map_eq_flatMap]

/-- A basis that does what its numbering says shows it on all elements. -/
theorem exists_visits (realizes : ∀ element < basis.grid.size 0, basis.Realizes numbering element)
    (room : numbering.places < Index.limit) (inGrid : ∀ element ∈ elements, element < basis.grid.size 0)
    (of : worker.view.Of basis) (same : worker.set.basis = basis) :
    ∃ shown, Visits worker elements shown ∧
      List.Forall₂ (fun element pair => pair.2.Shows numbering element) elements shown := by
  induction elements generalizing worker with
  | nil => exact ⟨[], .nil, .nil⟩
  | cons element rest ih =>
      have below := inGrid element List.mem_cons_self
      obtain ⟨view, set, bindsView, bindsSet, shows, of', same'⟩ :=
        exists_binds of same (realizes element below) below room
      obtain ⟨shown, visits, others⟩ := @ih ⟨view.unbind, set.unbind⟩
        (fun other inRest => inGrid other (List.mem_cons_of_mem _ inRest)) of' same'
      exact ⟨(view, set) :: shown, .cons bindsView bindsSet visits, .cons shows others⟩

end Traversal

end DofNumbering
