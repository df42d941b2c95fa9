import DofNumbering.Local.IndexSet
import DofNumbering.Proofs.Realization

namespace DofNumbering

/-! Bound views and index sets show the numbering of a basis.

This does not depend on what the view and the set were bound to before.
-/

/-- The view belongs to the basis, and its tree has the shape of that of the basis. -/
structure LocalView.Of (view : LocalView) (basis : Basis) : Prop where
  owner : view.basis = basis
  shape : view.tree.released = basis.createNode

/-- The set has the indices of a numbering on an element. -/
structure LocalIndexSet.Shows (set : LocalIndexSet) (numbering : Numbering) (element : Nat) :
    Prop where
  bound : set.isBound
  size : set.size = numbering.size
  entries : ∀ j < numbering.size, set.buffer[j]? = some (numbering.index element j)

variable {basis : Basis} {numbering : Numbering} {element : Nat} {view : LocalView}
  {set : LocalIndexSet}

namespace LocalIndexSet.Shows

theorem boundSize_eq_ok (shown : set.Shows numbering element) :
    set.boundSize = .ok numbering.size := by
  rw [boundSize, if_pos shown.bound, shown.size]

theorem index_eq_ok (shown : set.Shows numbering element) {j : Nat} (below : j < numbering.size) :
    set.index j = .ok (numbering.index element j) := by
  rw [index, if_pos shown.bound, if_pos (shown.size ▸ below)]
  exact Index.lookUp_eq_ok_iff.mpr (shown.entries j below)

theorem index_eq_ok_iff (shown : set.Shows numbering element) {j : Nat} {index : MultiIndex} :
    set.index j = .ok index ↔ j < numbering.size ∧ numbering.index element j = index := by
  by_cases below : j < numbering.size
  · rw [shown.index_eq_ok below, Except.ok.injEq]
    exact (and_iff_right below).symm
  · rw [LocalIndexSet.index, if_pos shown.bound, if_neg (shown.size ▸ below)]
    exact ⟨nofun, fun within => absurd within.1 below⟩

theorem indices_eq_ok (shown : set.Shows numbering element) :
    set.indices = .ok ((List.range numbering.size).map (numbering.index element)) := by
  rw [indices, if_pos shown.bound, shown.size]
  refine congrArg Except.ok (List.ext_getElem? (fun j => ?_))
  by_cases below : j < numbering.size
  · rw [List.getElem?_take_of_lt below, Array.getElem?_toList, shown.entries j below]
    simp [below]
  · simp [below]

end LocalIndexSet.Shows

theorem LocalView.of_create (realizes : basis.Realizes numbering element) :
    (LocalView.create basis).Of basis := ⟨rfl, realizes.createNode⟩

theorem LocalView.exists_bind (of : view.Of basis) (realizes : basis.Realizes numbering element)
    (inGrid : element < basis.grid.size 0) (room : numbering.places < Index.limit) :
    ∃ bound, view.bind (Entity.element element) = .ok bound ∧ bound.Of basis ∧
      bound.element = some (Entity.element element) ∧
      basis.Binds numbering element 0 1 bound.tree := by
  obtain ⟨tree, binds⟩ := realizes.bind 0 1 Nat.one_pos (by omega)
  refine ⟨{ view with element := some (Entity.element element), tree }, ?_,
    ⟨of.owner, binds.released⟩, rfl, binds⟩
  have contained : view.basis.grid.contains (Entity.element element) = true := by
    rw [of.owner]
    simp [GridView.contains, Entity.element, inGrid]
  have bound : view.basis.bindNode view.tree element 0 1 = .ok tree := by
    rw [of.owner]
    exact binds.bindNode view.tree of.shape
  rw [bind, if_neg (by simp [Entity.element]), if_pos contained]
  change (view.basis.bindNode view.tree element 0 1 >>= _) = _
  rw [bound, ok_bind]

theorem LocalIndexSet.grown_size (buffer : Buffer) (size : Nat) :
    size ≤ (grown buffer size).size := by
  simp only [grown, Buffer.blank, Array.size_append, Array.size_replicate]
  omega

/-- Binding a set writes the indices over whatever the buffer held. -/
theorem LocalIndexSet.exists_bind (same : set.basis = basis) (of : view.Of basis)
    (bound : view.isBound) (binds : basis.Binds numbering element 0 1 view.tree) :
    ∃ after, LocalIndexSet.bind view set = .ok () after ∧ after.basis = basis ∧
      after.Shows numbering element := by
  subst same
  let buffer := grown set.buffer view.tree.size
  have enough : numbering.size ≤ buffer.size := binds.size ▸ grown_size ..
  have places : (buffer.extract 0 view.tree.size).size = numbering.size := by
    rw [Array.size_extract, binds.size]
    omega
  obtain ⟨written, run, sameSize, entries, -⟩ := binds.fills (buffer.extract 0 view.tree.size) (by
    intro j below
    omega)
  refine ⟨⟨set.basis, view.element, view.tree.size,
    written ++ buffer.extract view.tree.size buffer.size⟩, ?_, rfl, ?_⟩
  · simp only [bind, if_pos bound, of.owner, buffer, run, if_true]
  · refine ⟨bound, binds.size, fun j below => ?_⟩
    have entry := entries j below
    rw [Nat.zero_add, Nat.mul_one] at entry
    rw [Array.getElem?_append_left (by omega), entry]

/-- A new set that is bound to a new view shows the numbering. -/
theorem Basis.Realizes.exists_bindFresh (realizes : basis.Realizes numbering element)
    (inGrid : element < basis.grid.size 0) (room : numbering.places < Index.limit) :
    ∃ view set, bindFresh basis element = .ok (view, set) ∧ set.Shows numbering element := by
  obtain ⟨view, bound, of, isElement, binds⟩ :=
    LocalView.exists_bind (LocalView.of_create realizes) realizes inGrid room
  have isBound : view.isBound = true := by rw [LocalView.isBound, isElement, Option.isSome_some]
  obtain ⟨set, written, -, shown⟩ :=
    @LocalIndexSet.exists_bind basis numbering element view (.create basis) rfl of isBound binds
  refine ⟨view, set, ?_, shown⟩
  rw [bindFresh, bound, ok_bind]
  simp only [Change.result, written, ok_bind]

end DofNumbering
