import DofNumbering.Proofs.Local.Descendants
import DofNumbering.Proofs.Local.Steps

namespace DofNumbering

/-! One view or one index set of a basis, after any bindings.

A binding that is refused changes nothing: a view refuses what is no element of its grid
view, and a set refuses a view that is unbound or belongs to another instance.
-/

/-- The views of a basis: new ones, and what binding and unbinding make of them. -/
inductive LocalView.Reached (basis : Basis) : LocalView → Prop
  | create : Reached basis (.create basis)
  | bind {view after : LocalView} {entity : Entity} (reached : Reached basis view)
      (ran : view.bind entity = .ok after) : Reached basis after
  | unbind {view : LocalView} (reached : Reached basis view) : Reached basis view.unbind

/-- The index sets of a basis.  A set is intact unless a fault has stopped it while it wrote
over its indices, and it has been neither bound nor unbound since. -/
inductive LocalIndexSet.Reached (basis : Basis) : (intact : Bool) → LocalIndexSet → Prop
  | create : Reached basis true (.create basis)
  | bind {intact : Bool} {set after : LocalIndexSet} {view : LocalView}
      (reached : Reached basis intact set) (viewReached : LocalView.Reached basis view)
      (ran : LocalIndexSet.bind view set = .ok () after) : Reached basis true after
  | stop {intact : Bool} {set left : LocalIndexSet} {view : LocalView} {fault : Fault}
      (reached : Reached basis intact set) (viewReached : LocalView.Reached basis view)
      (ran : LocalIndexSet.bind view set = .error fault left) : Reached basis false left
  | unbind {intact : Bool} {set : LocalIndexSet} (reached : Reached basis intact set) :
      Reached basis true set.unbind

variable {grid : GridView} {least : Nat} {basis : Basis} {view : LocalView} {set : LocalIndexSet}
  {entity : Entity} {intact : Bool}

theorem LocalView.Reached.current (rebinds : basis.Rebinds) (reached : LocalView.Reached basis view) :
    view.basis = basis ∧ view.Current := by
  induction reached with
  | create => exact ⟨rfl, LocalView.current_create rebinds⟩
  | bind _ ran ih =>
      obtain ⟨rfl, current⟩ := ih
      obtain ⟨after, same, -⟩ := current.bind rebinds ran
      exact ⟨same, after⟩
  | unbind _ ih => exact ⟨ih.1, ih.2.unbind⟩

section Counting

variable {place : (child size : Nat) → Except Fault (Nat × Nat)}
  {bind : (child : Nat) → LocalNode → (offset stride : Nat) → Except Fault LocalNode}

/-- The common size of bound children is the sum of their sizes. -/
theorem counted_of_bindChildren {nodes : List LocalNode} {first before : Nat}
    {result : List LocalNode × Nat}
    (counted : ∀ child node offset stride bound,
      bind child node offset stride = .ok bound → bound.Counted)
    (ran : Basis.bindChildren place bind first before nodes = .ok result) :
    (∀ child ∈ result.1, child.Counted) ∧
      result.2 = before + (result.1.map LocalNode.size).sum := by
  induction nodes generalizing first before result with
  | nil =>
      obtain rfl := Except.ok.inj ran
      exact ⟨fun _ inNone => absurd inNone List.not_mem_nil, rfl⟩
  | cons node rest ih =>
      obtain ⟨⟨offset, stride⟩, -, bindsNode⟩ := bind_eq_ok_iff.mp ran
      obtain ⟨bound, bindsHere, adds⟩ := bind_eq_ok_iff.mp bindsNode
      obtain ⟨next, added, bindsRest⟩ := bind_eq_ok_iff.mp adds
      obtain ⟨others, ranRest, done⟩ := bind_eq_ok_iff.mp bindsRest
      obtain rfl := Except.ok.inj done
      obtain ⟨-, rfl⟩ := Index.add_eq_ok_iff.mp added
      obtain ⟨countedRest, sum⟩ := ih ranRest
      refine ⟨List.forall_mem_cons.mpr ⟨counted _ _ _ _ _ bindsHere, countedRest⟩, ?_⟩
      rw [List.map_cons, List.sum_cons, ← Nat.add_assoc]
      exact sum

end Counting

/-- The size of every node that a basis binds counts its degrees of freedom. -/
theorem Built.counted (built : Built grid least basis) {node bound : LocalNode}
    {element offset stride : Nat} (ran : basis.bindNode node element offset stride = .ok bound) :
    bound.Counted := by
  induction built generalizing node bound offset stride with
  | lagrange _ =>
      obtain ⟨leaf, -, binds⟩ := bind_eq_ok_iff.mp ran
      obtain ⟨other, -, done⟩ := bind_eq_ok_iff.mp binds
      exact Except.ok.inj done ▸ .leaf other
  | power merging exponent _ _ ih =>
      obtain ⟨children, -, binds⟩ := bind_eq_ok_iff.mp ran
      obtain ⟨result, ranChildren, done⟩ := bind_eq_ok_iff.mp binds
      obtain ⟨counted, sum⟩ := counted_of_bindChildren (fun _ _ _ _ _ => ih) ranChildren
      exact Except.ok.inj done ▸ .inner counted (sum.trans (Nat.zero_add _))
  | @composite blocked members basis created _ ih =>
      cases CompositeBasis.create_eq_ok created
      obtain ⟨children, -, binds⟩ := bind_eq_ok_iff.mp ran
      obtain ⟨result, ranChildren, done⟩ := bind_eq_ok_iff.mp binds
      have each : ∀ child node offset stride bound, (do
            let member ← members.member child
            member.bindNode node element offset stride) = .ok bound → bound.Counted := by
        intro child node offset stride bound bindsChild
        obtain ⟨member, found, bindsMember⟩ := bind_eq_ok_iff.mp bindsChild
        exact ih member (members.mem_of_member found) bindsMember
      obtain ⟨counted, sum⟩ := counted_of_bindChildren each ranChildren
      exact Except.ok.inj done ▸ .inner counted (sum.trans (Nat.zero_add _))
  | tagged _ _ ih => exact ih ran

/-- A bound view has the tree that its basis binds to the element. -/
theorem LocalView.Reached.exists_bindNode (rebinds : basis.Rebinds)
    (reached : LocalView.Reached basis view) (bound : view.element = some entity) :
    entity.codim = 0 ∧ basis.grid.contains entity = true ∧
      basis.bindNode basis.createNode entity.index 0 1 = .ok view.tree ∧
      view.tree.Dense entity.index := by
  obtain ⟨rfl, current⟩ := reached.current rebinds
  have dense := current.dense rebinds bound
  obtain ⟨isElement, inGrid, tree, ran, same⟩ :=
    LocalView.bind_eq_ok_iff.mp (current.fresh entity bound)
  obtain rfl : view.tree = tree := congrArg LocalView.tree same
  exact ⟨isElement, inGrid, ran, dense⟩

/-- The number of local degrees of freedom of a bound view is an index. -/
theorem LocalView.Reached.size_lt (built : Built grid least basis)
    (reached : LocalView.Reached basis view) (bound : view.element = some entity) :
    view.tree.size < Index.limit := by
  obtain ⟨-, -, ran, -⟩ := reached.exists_bindNode built.rebinds bound
  obtain ⟨numbering, numbered⟩ := built.exists_numbering
  obtain ⟨base, relocates⟩ := numbered.exists_relocates entity.index
  rw [relocates.eq_moved relocates.createNode ran, LocalNode.size_moved, relocates.size]
  exact (relocates.shrinks relocates.createNode ran).1

namespace LocalIndexSet.Reached

theorem current (rebinds : basis.Rebinds) (reached : LocalIndexSet.Reached basis intact set) :
    set.basis = basis ∧ set.Current (intact = true) := by
  induction reached with
  | create => exact ⟨rfl, current_of_unbound rfl⟩
  | bind _ viewReached ran ih =>
      obtain ⟨owner, current⟩ := viewReached.current rebinds
      obtain ⟨after, same, -⟩ :=
        current_of_bind current (ih.1 ▸ rebinds) (owner.trans ih.1.symm) ran
      exact ⟨same.trans ih.1, after⟩
  | @stop _ old _ source _ _ viewReached ran ih =>
      by_cases accepted : old.StoppedBy source
      · obtain ⟨buffer, rfl⟩ := exists_buffer_of_stoppedBy ran accepted
        exact ⟨ih.1, ih.2.writtenOver buffer Bool.false_ne_true⟩
      · obtain rfl := left_eq_of_not_stoppedBy ran accepted
        exact ⟨ih.1, ih.2.mono (fun intact => absurd intact Bool.false_ne_true)⟩
  | unbind _ ih => exact ⟨ih.1, current_of_unbound rfl⟩

/-- If the numbers are indices, no fault ever writes over a set. -/
theorem intact_of_fits (built : Built grid least basis)
    (triangles : ∀ element < grid.size 0, grid.HasTriangle element) (fits : basis.Fits grid)
    (reached : LocalIndexSet.Reached basis intact set) : LocalIndexSet.Reached basis true set := by
  induction reached with
  | create => exact .create
  | bind reached viewReached ran _ => exact .bind reached viewReached ran
  | @stop _ _ _ source _ reached viewReached ran ih =>
      obtain ⟨sameOwner, -⟩ := reached.current built.rebinds
      obtain ⟨owner, current⟩ := viewReached.current built.rebinds
      by_cases isBound : source.isBound = true
      · obtain ⟨entity, bound⟩ := Option.isSome_iff_exists.mp isBound
        obtain ⟨after, done⟩ := Basis.Fits.exists_bind (sameOwner ▸ fits) triangles current
          (owner.trans sameOwner.symm) bound
        rw [ran] at done
        contradiction
      · obtain rfl := left_eq_of_not_stoppedBy ran (fun accepted => isBound accepted.1)
        exact ih
  | unbind reached _ => exact .unbind reached

/-- An intact set holds as many indices as it says. -/
theorem size_le (rebinds : basis.Rebinds) (reached : LocalIndexSet.Reached basis true set) :
    set.size ≤ set.buffer.size := by
  cases reached with
  | create => exact Nat.zero_le _
  | unbind => exact Nat.zero_le _
  | @bind _ old _ source before viewReached ran =>
      obtain ⟨isBound, owner, -⟩ := of_bind_eq_ok ran
      obtain ⟨rfl, -⟩ := before.current rebinds
      have agree : Buffer.AgreeAt source.tree.size ∅ (old.front source.tree.size)
          (old.front source.tree.size) :=
        ⟨old.size_front _, old.size_front _, fun _ _ => rfl⟩
      rw [bind_of_bound isBound owner] at ran
      rcases rebinds.rewrites source.tree _ ∅ _ _ subset_rfl agree with
        ⟨_, written, _, run, -, agreeAfter⟩ | ⟨fault, written, _, run, -⟩
      · rw [run] at ran
        obtain rfl := (EStateM.Result.ok.inj ran).2
        rw [Array.size_append, agreeAfter.leftSize]
        exact Nat.le_add_right _ _
      · rw [run] at ran
        contradiction

end LocalIndexSet.Reached

/-- A new view and a new set on one element. -/
theorem reached_of_bindFresh {element : Nat} (ran : bindFresh basis element = .ok (view, set)) :
    (LocalView.Reached basis view ∧ view.element = some (Entity.element element)) ∧
      LocalIndexSet.Reached basis true set ∧ set.element = some (Entity.element element) := by
  obtain ⟨bound, bindsSet⟩ := of_bindFresh_eq_ok ran
  have viewReached : LocalView.Reached basis view := .bind .create bound
  obtain ⟨-, -, tree, -, rfl⟩ := LocalView.bind_eq_ok_iff.mp bound
  obtain ⟨-, -, -, sameElement⟩ := LocalIndexSet.of_bind_eq_ok bindsSet
  exact ⟨⟨viewReached, rfl⟩, .bind .create viewReached bindsSet, sameElement⟩

end DofNumbering
