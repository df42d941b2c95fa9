import DofNumbering.Proofs.Rebinding
import DofNumbering.Proofs.Samples
import DofNumbering.Proofs.Traversal

namespace DofNumbering

/-! Traversals bind their one view and index set like new ones for every element.

Nothing is left of the elements before, so it does not matter which elements a
worker has and in which order.  What stops the binding to an element stops that
of a new view and index set, too.
-/

/-- The view is a new one that is bound to the element, and the set is bound to it and
answers like a new one. -/
structure BoundAnew (basis : Basis) (element : Nat) (pair : LocalView × LocalIndexSet) : Prop where
  view : pair.1.element = some (Entity.element element)
  set : pair.2.element = some (Entity.element element)
  fresh : ∃ fresh, bindFresh basis element = .ok (pair.1, fresh) ∧ pair.2.SameAnswers fresh

/-- The pairs are bound like new ones to the elements, in ascending order from the first one on. -/
def BoundInOrder (basis : Basis) (pairs : List (LocalView × LocalIndexSet)) : Prop :=
  ∀ k pair, pairs[k]? = some pair → k < basis.grid.size 0 ∧ BoundAnew basis k pair

/-- What a callback is shown of an element. -/
structure Seen where
  element : Option Entity
  tree : LocalNode
  indices : Except Fault (List MultiIndex)

namespace Seen

def of (view : LocalView) (set : LocalIndexSet) : Seen := ⟨view.element, view.tree, set.indices⟩

/-- What a new view and a new index set show of an element. -/
def anew (basis : Basis) (element : Nat) : Except Fault Seen := do
  let (view, set) ← bindFresh basis element
  .ok (of view set)

theorem anew_eq_ok {basis : Basis} {element : Nat} {view : LocalView} {set : LocalIndexSet}
    (bound : BoundAnew basis element (view, set)) : anew basis element = .ok (of view set) := by
  obtain ⟨fresh, ran, same⟩ := bound.fresh
  rw [anew, ran, ok_bind]
  simp only [of, same.indices]

theorem anew_eq_error_iff {basis : Basis} {element : Nat} {fault : Fault} :
    anew basis element = .error fault ↔ bindFresh basis element = .error fault := by
  rw [anew]
  cases bindFresh basis element with
  | error other => rw [error_bind, Except.error.injEq, Except.error.injEq]
  | ok pair => exact iff_of_false nofun nofun

end Seen

namespace Traversal

variable {ε σ α : Type} {grid : GridView} {basis : Basis} {worker : Worker} {element : Nat}
  {elements : List Nat}

/-- A worker whose view is unbound or bound to some element of the basis. -/
structure Worker.Ready (basis : Basis) (worker : Worker) : Prop where
  owner : worker.view.basis = basis
  current : worker.view.Current
  set : worker.set.basis = basis

theorem Worker.ready_create (built : Built grid 0 basis) : (Worker.create basis).Ready basis :=
  ⟨rfl, LocalView.current_create built.rebinds, rfl⟩

/-- A visit of an element calls the step with a view and a set that are bound like new ones,
or is stopped by the fault that stops the binding of new ones. -/
theorem Worker.Ready.visit_cons (ready : worker.Ready basis) (built : Built grid 0 basis)
    (step : σ → LocalView → LocalIndexSet → Except (Failure ε) σ) (element : Nat)
    (rest : List Nat) (state : σ) :
    (∃ view set, BoundAnew basis element (view, set) ∧
      Worker.Ready basis ⟨view.unbind, set.unbind⟩ ∧
      visit step (element :: rest) worker state =
        step state view set >>= visit step rest ⟨view.unbind, set.unbind⟩) ∨
    ∃ fault, bindFresh basis element = .error fault ∧
      visit step (element :: rest) worker state = .error (.fault fault) := by
  obtain ⟨owner, current, setOwner⟩ := ready
  have builtView : Built grid 0 worker.view.basis := owner ▸ built
  have likeNew := current.bind_eq builtView (Entity.element element)
  rw [owner] at likeNew
  cases bindsView : worker.view.bind (Entity.element element) with
  | error fault =>
      refine .inr ⟨fault, ?_, ?_⟩
      · rw [bindFresh, ← likeNew, bindsView, error_bind]
      · simp only [visit, withBound, bindsView]
  | ok view =>
      obtain ⟨boundCurrent, sameBasis, bound⟩ := current.bind builtView.rebinds bindsView
      have isBound : view.isBound = true := by rw [LocalView.isBound, bound, Option.isSome_some]
      have dense := boundCurrent.dense (sameBasis ▸ builtView.rebinds) bound
      have sameTag : view.basis.tag = worker.set.basis.tag := by rw [sameBasis, owner, setOwner]
      have freshOwner : (LocalIndexSet.create basis).basis = worker.set.basis := setOwner.symm
      rcases LocalIndexSet.bind_eq_or_stopped (setOwner ▸ built.rebinds) dense isBound sameTag
          freshOwner with
        ⟨set, fresh, bindsSet, bindsFresh, same, setBasis, setElement, -⟩ |
        ⟨fault, left, left', stopped, stopped', -⟩
      · refine .inl ⟨view, set, ⟨bound, setElement.trans bound, fresh, ?_, same⟩,
          ⟨sameBasis.trans owner, boundCurrent.unbind, setBasis.trans setOwner⟩,
          Traversal.visit_cons bindsView bindsSet⟩
        rw [bindFresh, ← likeNew, bindsView, ok_bind, Change.result, bindsFresh, ok_bind]
      · refine .inr ⟨fault, ?_, ?_⟩
        · rw [bindFresh, ← likeNew, bindsView, ok_bind, Change.result, stopped', error_bind]
        · simp only [visit, withBound, bindsView, stopped]

/-- The step is called with these pairs one after the other, until it fails. -/
inductive Calls (step : σ → LocalView → LocalIndexSet → Except (Failure ε) σ) :
    σ → List (LocalView × LocalIndexSet) → Except (Failure ε) σ → Prop where
  | nil {state : σ} : Calls step state [] (.ok state)
  | failed {state : σ} {view : LocalView} {set : LocalIndexSet} {failure : Failure ε}
      (stopped : step state view set = .error failure) :
      Calls step state [(view, set)] (.error failure)
  | next {state after : σ} {view : LocalView} {set : LocalIndexSet}
      {pairs : List (LocalView × LocalIndexSet)} {outcome : Except (Failure ε) σ}
      (stepped : step state view set = .ok after) (others : Calls step after pairs outcome) :
      Calls step state ((view, set) :: pairs) outcome

/-- A visit calls the step for one element after the other, up to the first failure, or
up to an element to which no new view and set can be bound. -/
theorem exists_calls_of_visit (built : Built grid 0 basis)
    (step : σ → LocalView → LocalIndexSet → Except (Failure ε) σ) (elements : List Nat)
    (ready : worker.Ready basis) (state : σ) :
    ∃ pairs outcome, Calls step state pairs outcome ∧
      (∀ (k : Nat) pair, pairs[k]? = some pair →
        ∃ element, elements[k]? = some element ∧ BoundAnew basis element pair) ∧
      ((visit step elements worker state = outcome ∧
          (pairs.length = elements.length ∨ ∃ failure, outcome = .error failure)) ∨
        ∃ fault final element, outcome = .ok final ∧ elements[pairs.length]? = some element ∧
          bindFresh basis element = .error fault ∧
          visit step elements worker state = .error (.fault fault)) := by
  induction elements generalizing worker state with
  | nil => exact ⟨[], .ok state, .nil, fun _ _ found => by simp at found, .inl ⟨rfl, .inl rfl⟩⟩
  | cons element rest ih =>
      rcases ready.visit_cons built step element rest state with
        ⟨view, set, anew, readyNext, ran⟩ | ⟨fault, notFresh, stopped⟩
      · rw [ran]
        cases stepped : step state view set with
        | error failure =>
            refine ⟨[(view, set)], .error failure, .failed stepped, fun k pair found => ?_,
              .inl ⟨rfl, .inr ⟨failure, rfl⟩⟩⟩
            obtain ⟨rfl, rfl⟩ : k = 0 ∧ (view, set) = pair := by
              simpa [List.getElem?_singleton] using found
            exact ⟨element, rfl, anew⟩
        | ok next =>
            obtain ⟨pairs, outcome, calls, bound, ending⟩ := ih readyNext next
            refine ⟨(view, set) :: pairs, outcome, .next stepped calls, fun k pair found => ?_, ?_⟩
            · cases k with
              | zero =>
                  obtain rfl : (view, set) = pair := Option.some.inj found
                  exact ⟨element, rfl, anew⟩
              | succ k => exact bound k pair found
            · rw [ok_bind]
              rcases ending with ⟨done, ended⟩ | stopped
              · exact .inl ⟨done, ended.imp (congrArg (· + 1)) id⟩
              · exact .inr stopped
      · exact ⟨[], .ok state, .nil, fun _ _ found => by simp at found,
          .inr ⟨fault, state, element, rfl, rfl, notFresh, stopped⟩⟩

theorem exists_calls_of_tryForEach (built : Built grid 0 basis)
    (step : σ → LocalView → LocalIndexSet → Except (Failure ε) σ) (state : σ) :
    ∃ pairs outcome, Calls step state pairs outcome ∧ BoundInOrder basis pairs ∧
      ((tryForEach basis step state = outcome ∧
          (pairs.length = basis.grid.size 0 ∨ ∃ failure, outcome = .error failure)) ∨
        ∃ fault final, outcome = .ok final ∧ pairs.length < basis.grid.size 0 ∧
          bindFresh basis pairs.length = .error fault ∧
          tryForEach basis step state = .error (.fault fault)) := by
  obtain ⟨pairs, outcome, calls, bound, ending⟩ := exists_calls_of_visit built step
    (List.range (basis.grid.size 0)) (Worker.ready_create built) state
  have ranged : ∀ {k element}, (List.range (basis.grid.size 0))[k]? = some element →
      element = k ∧ k < basis.grid.size 0 := fun found => by
    obtain ⟨inRange, rfl⟩ := List.getElem?_eq_some_iff.mp found
    exact ⟨List.getElem_range _, Nat.lt_of_lt_of_eq inRange List.length_range⟩
  refine ⟨pairs, outcome, calls, fun k pair found => ?_, ?_⟩
  · obtain ⟨element, isElement, anew⟩ := bound k pair found
    obtain ⟨rfl, inGrid⟩ := ranged isElement
    exact ⟨inGrid, anew⟩
  · rw [List.length_range] at ending
    rcases ending with done | ⟨fault, final, element, rfl, isElement, notFresh, stopped⟩
    · exact .inl done
    · obtain ⟨rfl, inGrid⟩ := ranged isElement
      exact .inr ⟨fault, final, rfl, inGrid, notFresh, stopped⟩

/-- A step that does not fail is called with all pairs. -/
theorem Calls.outcome_eq {step : σ → LocalView → LocalIndexSet → σ} {state : σ}
    {pairs : List (LocalView × LocalIndexSet)} {outcome : Except (Failure ε) σ}
    (calls : Calls (fun state view set => .ok (step state view set)) state pairs outcome) :
    outcome = .ok (pairs.foldl (fun state pair => step state pair.1 pair.2) state) := by
  induction calls with
  | nil => rfl
  | failed stopped => cases stopped
  | next stepped _ ih =>
      obtain rfl := Except.ok.inj stepped
      exact ih

theorem exists_pairs_of_forEach (built : Built grid 0 basis)
    (step : σ → LocalView → LocalIndexSet → σ) (state : σ) :
    ∃ pairs, BoundInOrder basis pairs ∧
      ((pairs.length = basis.grid.size 0 ∧ forEach basis step state =
          .ok (pairs.foldl (fun state pair => step state pair.1 pair.2) state)) ∨
        ∃ fault, pairs.length < basis.grid.size 0 ∧
          bindFresh basis pairs.length = .error fault ∧
          forEach basis step state = .error (.fault fault)) := by
  obtain ⟨pairs, outcome, calls, bound, ending⟩ := exists_calls_of_tryForEach built
    (fun state view set => (.ok (step state view set) : Except (Failure Empty) σ)) state
  obtain rfl := calls.outcome_eq
  refine ⟨pairs, bound, ?_⟩
  rcases ending with ⟨done, all | ⟨failure, failed⟩⟩ | ⟨fault, final, -, inGrid, notFresh, stopped⟩
  · exact .inl ⟨all, done⟩
  · cases failed
  · exact .inr ⟨fault, inGrid, notFresh, stopped⟩

/-- What a visit gathers is gathered from what new views and sets show of the elements. -/
theorem visit_gathering (built : Built grid 0 basis) (gather : σ → Seen → σ)
    (elements : List Nat) (ready : worker.Ready basis) (state : σ) :
    visit (fun state view set => (.ok (gather state (.of view set)) : Except (Failure ε) σ))
        elements worker state =
      ((elements.mapM (Seen.anew basis)).map (List.foldl gather state)).mapError .fault := by
  induction elements generalizing worker state with
  | nil => rfl
  | cons element rest ih =>
      rw [List.mapM_cons]
      rcases ready.visit_cons built (fun state view set => .ok (gather state (.of view set)))
          element rest state with ⟨view, set, anew, readyNext, ran⟩ | ⟨fault, notFresh, stopped⟩
      · rw [ran, Seen.anew_eq_ok anew, ok_bind, ok_bind, ih readyNext]
        cases rest.mapM (Seen.anew basis) <;> rfl
      · rw [stopped, Seen.anew_eq_error_iff.mpr notFresh]
        rfl

theorem forEach_gathering (built : Built grid 0 basis) :
    forEach basis (fun all view set => all ++ [Seen.of view set]) [] =
      ((List.range (basis.grid.size 0)).mapM (Seen.anew basis)).mapError .fault := by
  refine (visit_gathering built (fun all seen => all ++ [seen]) _
    (Worker.ready_create built) []).trans ?_
  cases (List.range (basis.grid.size 0)).mapM (Seen.anew basis) with
  | error fault => rfl
  | ok all =>
      have listed : all.foldl (fun all seen => all ++ [seen]) [] = all := by
        rw [List.foldl_append_eq_append, List.nil_append, ← List.flatMap_def, List.flatMap_singleton']
      exact congrArg Except.ok listed

/-- Workers together see what new views and sets show of their elements. -/
theorem onWorkers_eq (built : Built grid 0 basis) (schedule : List (List Nat)) :
    onWorkers basis Seen.of schedule =
      (schedule.flatten.mapM (Seen.anew basis)).mapError .fault := by
  induction schedule with
  | nil => rfl
  | cons elements rest ih =>
      have gathered := @visit_gathering Empty _ _ _ _ built (fun all seen => seen :: all) elements
        (Worker.ready_create built) []
      rw [onWorkers, gathered, ih, List.flatten_cons, List.mapM_append]
      cases elements.mapM (Seen.anew basis) with
      | error fault => rfl
      | ok all =>
          cases rest.flatten.mapM (Seen.anew basis) with
          | error fault => rfl
          | ok others => simp [Except.map, Except.mapError]

/-- A traversal calls its step for the elements in ascending order up to the first failure,
with a view and a set that are bound to the element like new ones; and workers together
are shown the same, whatever elements each has in which order.  Only an element to which
no new view and set can be bound stops them before, which takes numbers that are no
indices. -/
theorem binds_anew {grid : GridView} {basis : Basis} (built : Built grid 0 basis) :
    (∀ {ε σ : Type} (step : σ → LocalView → LocalIndexSet → Except (Failure ε) σ) (state : σ),
      ∃ pairs outcome, Calls step state pairs outcome ∧ BoundInOrder basis pairs ∧
        ((tryForEach basis step state = outcome ∧
            (pairs.length = basis.grid.size 0 ∨ ∃ failure, outcome = .error failure)) ∨
          ∃ fault final, outcome = .ok final ∧ pairs.length < basis.grid.size 0 ∧
            bindFresh basis pairs.length = .error fault ∧
            tryForEach basis step state = .error (.fault fault))) ∧
    (∀ {σ : Type} (step : σ → LocalView → LocalIndexSet → σ) (state : σ),
      ∃ pairs, BoundInOrder basis pairs ∧
        ((pairs.length = basis.grid.size 0 ∧ forEach basis step state =
            .ok (pairs.foldl (fun state pair => step state pair.1 pair.2) state)) ∨
          ∃ fault, pairs.length < basis.grid.size 0 ∧
            bindFresh basis pairs.length = .error fault ∧
            forEach basis step state = .error (.fault fault))) ∧
    (∀ schedule : List (List Nat), schedule.flatten.Perm (List.range (basis.grid.size 0)) →
      (∀ all, forEach basis (fun all view set => all ++ [Seen.of view set]) [] = .ok all →
        ∃ collected, onWorkers basis Seen.of schedule = .ok collected ∧ collected.Perm all) ∧
      (∀ failure, forEach basis (fun all view set => all ++ [Seen.of view set]) [] =
          .error failure →
        ∃ element < basis.grid.size 0, ∃ fault, bindFresh basis element = .error fault ∧
          onWorkers basis Seen.of schedule = .error (.fault fault))) ∧
    (basis.Fits grid → (∀ element < grid.size 0, grid.HasTriangle element) →
      ∀ element < grid.size 0, ∃ pair, bindFresh basis element = .ok pair) := by
  refine ⟨exists_calls_of_tryForEach built, exists_pairs_of_forEach built,
    fun schedule covers => ?_, fun fits triangles element inGrid =>
      fits.exists_bindFresh (triangles element inGrid) inGrid⟩
  rw [forEach_gathering built, onWorkers_eq built]
  constructor
  · intro all ran
    cases inOrder : (List.range (basis.grid.size 0)).mapM (Seen.anew basis) with
    | error fault =>
        rw [inOrder] at ran
        cases ran
    | ok all' =>
        rw [inOrder] at ran
        obtain rfl := Except.ok.inj ran
        obtain ⟨collected, gathered, perm⟩ := exists_mapM_of_perm covers.symm inOrder
        exact ⟨collected, by rw [gathered]; rfl, perm⟩
  · intro failure stopped
    cases gathered : schedule.flatten.mapM (Seen.anew basis) with
    | ok collected =>
        obtain ⟨all, inOrder, -⟩ := exists_mapM_of_perm covers gathered
        rw [inOrder] at stopped
        cases stopped
    | error fault =>
        obtain ⟨element, inSchedule, notFresh⟩ := exists_of_mapM_eq_error gathered
        exact ⟨element, List.mem_range.mp (covers.mem_iff.mp inSchedule), fault,
          Seen.anew_eq_error_iff.mp notFresh, rfl⟩

/-- Two workers take the two elements of a square in the other order. -/
theorem binds_anew_square :
    Built (Sample.squareView.toGridView 0) 0 Sample.pair.toBasis ∧
    [[1], [0]].flatten.Perm (List.range (Sample.squareView.size 0)) ∧
    ∃ all collected, forEach Sample.pair.toBasis
        (fun all view set => all ++ [Seen.of view set]) [] = .ok all ∧
      onWorkers Sample.pair.toBasis Seen.of [[1], [0]] = .ok collected ∧ collected.Perm all := by
  have built : Built (Sample.squareView.toGridView 0) 0 Sample.pair.toBasis :=
    Sample.pair_built.mono (Nat.zero_le 1)
  have covers : [[1], [0]].flatten.Perm (List.range (Sample.squareView.size 0)) :=
    .swap 0 1 []
  have fits : Sample.pair.toBasis.Fits (Sample.squareView.toGridView 0) :=
    .inl ⟨17, 12, Sample.pair_built, rfl, rfl, by decide, by decide⟩
  obtain ⟨-, loops, workers, fresh⟩ := binds_anew built
  obtain ⟨pairs, -, ⟨-, ran⟩ | ⟨fault, inGrid, notFresh, -⟩⟩ :=
    loops (fun all view set => all ++ [Seen.of view set]) []
  · obtain ⟨collected, together, perm⟩ := (workers [[1], [0]] covers).1 _ ran
    exact ⟨built, covers, _, collected, ran, together, perm⟩
  · obtain ⟨pair, bound⟩ := fresh fits
      (fun element below => MeshView.hasTriangle Sample.square_viewed below) pairs.length inGrid
    rw [bound] at notFresh
    cases notFresh

/-- The step never fails, but the indices of the second element are above the limit. -/
theorem stops_on_brink :
    Built (Sample.squareView.toGridView 0) 0 Sample.brink.toBasis ∧
    Sample.squareView.size 0 = 2 ∧
    tryForEach Sample.brink.toBasis
      (fun count _ _ => (.ok (count + 1) : Except (Failure Empty) Nat)) 0 =
        .error (.fault .arithmetic) :=
  ⟨Sample.brink_built, rfl, by decide +kernel⟩

end Traversal

end DofNumbering
