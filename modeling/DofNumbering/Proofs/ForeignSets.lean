import DofNumbering.Proofs.Paths

namespace DofNumbering

/-! What a subspace lists for a view and an index set of any bases.

A subspace asks whether the view belongs to its basis, and whether the view and the set
have the same element.  It does not ask whose indices the set has.
-/

/-- The local positions of a subspace on an element, in the order of its leaves. -/
def Subspace.positions (space : Subspace) (element : Nat) : Except Fault (List Nat) := do
  let view ← (LocalView.create space.root).bind (Entity.element element)
  let node ← space.tree view
  node.localIndices

/-- The indices that a basis gives to local positions of an element. -/
def Basis.indicesAt (basis : Basis) (element : Nat) (positions : List Nat) :
    Except Fault (List MultiIndex) := do
  let (_, set) ← bindFresh basis element
  positions.mapM set.index

variable {grid : GridView} {least : Nat} {basis : Basis} {view : LocalView} {set : LocalIndexSet}
  {space : Subspace} {entity : Entity} {path : List Nat} {fault : Fault}

/-- A bound view of the basis has the positions of a new one. -/
theorem Subspace.positions_eq (built : Built grid least basis)
    (created : Subspace.create basis path = .ok space) (reached : LocalView.Reached basis view)
    (bound : view.element = some entity) :
    space.positions entity.index = space.tree view >>= LocalNode.localIndices := by
  obtain ⟨rfl, -, -⟩ := Subspace.create_eq_ok_iff.mp created
  obtain ⟨owner, current⟩ := reached.current built.rebinds
  obtain ⟨isElement, -⟩ := reached.exists_bindNode built.rebinds bound
  rw [positions, Entity.element_index isElement, ← owner, current.fresh entity bound, ok_bind]

/-- A bound and intact set has the indices of a new one. -/
theorem Basis.indicesAt_eq (built : Built grid least basis)
    (reached : LocalIndexSet.Reached basis true set) (bound : set.element = some entity)
    (positions : List Nat) : basis.indicesAt entity.index positions = positions.mapM set.index := by
  obtain ⟨rfl, current⟩ := reached.current built.rebinds
  obtain ⟨freshView, fresh, ran, -, -, same⟩ := current entity bound
  rw [indicesAt, ran, ok_bind]
  exact congrArg positions.mapM (funext fun position => ((same rfl).index position).symm)

/-- A bound and intact set only refuses positions that it does not have. -/
theorem LocalIndexSet.Reached.eq_of_index_eq_error (built : Built grid least basis)
    (reached : LocalIndexSet.Reached basis true set) (bound : set.element = some entity)
    {position : Nat} (refused : set.index position = .error fault) : fault = .localIndex := by
  have isBound : set.isBound = true := by rw [LocalIndexSet.isBound, bound, Option.isSome_some]
  rw [LocalIndexSet.index, if_pos isBound] at refused
  by_cases below : position < set.size
  · have inBuffer := Nat.lt_of_lt_of_le below (reached.size_le built.rebinds)
    rw [if_pos below, Index.lookUp_eq_ok_iff.mpr (Array.getElem?_eq_getElem inBuffer)] at refused
    contradiction
  · rw [if_neg below] at refused
    exact (Except.error.inj refused).symm

/-- A bound view of the basis has the positions of every subspace. -/
theorem Subspace.exists_positions (built : Built grid least basis)
    (created : Subspace.create basis path = .ok space) (reached : LocalView.Reached basis view)
    (bound : view.element = some entity) :
    ∃ positions, space.tree view >>= LocalNode.localIndices = .ok positions := by
  obtain ⟨owner, -⟩ := reached.current built.rebinds
  obtain ⟨-, -, -, dense⟩ := reached.exists_bindNode built.rebinds bound
  obtain ⟨node, found, tree, -⟩ := Subspace.exists_tree created owner (reached.outlines built)
    (LocalView.boundTree_of_element bound)
  refine ⟨node.places, ?_⟩
  rw [tree, ok_bind]
  exact dense.localIndices_descendant (reached.size_lt built bound) found

section Owners

variable {root viewOwner setOwner : Basis} {viewGrid setGrid : GridView}

/-- On one element, a subspace lists what the owner of the set has at its positions. -/
theorem Subspace.indices_of_bound (built : Built grid 0 root) (setBuilt : Built setGrid 0 setOwner)
    (created : Subspace.create root path = .ok space) (viewReached : LocalView.Reached root view)
    (setReached : LocalIndexSet.Reached setOwner true set) (bound : view.element = some entity)
    (sameElement : set.element = some entity) :
    space.indices view set = space.positions entity.index >>= setOwner.indicesAt entity.index := by
  rw [Subspace.indices, if_pos (bound.trans sameElement.symm),
    Subspace.positions_eq built created viewReached bound]
  cases space.tree view with
  | error fault => rfl
  | ok node =>
      rw [ok_bind, ok_bind]
      exact congrArg _ (funext fun positions =>
        (Basis.indicesAt_eq setBuilt setReached sameElement positions).symm)

/-- A subspace refuses a view of another basis, and a view and a set without a common element. -/
theorem Subspace.indices_of_apart (viewBuilt : Built viewGrid 0 viewOwner)
    (instances : viewOwner.tag = root.tag → viewOwner = root)
    (created : Subspace.create root path = .ok space)
    (viewReached : LocalView.Reached viewOwner view)
    (apart : ¬ (viewOwner = root ∧ ∃ entity, view.element = some entity ∧
      set.element = some entity)) :
    ∃ fault, space.indices view set = .error fault ∧ (fault = .subspaceElementsDiffer ∨
      fault = .subspaceOfForeignView ∨ fault = .unboundView) := by
  obtain ⟨rfl, -, -⟩ := Subspace.create_eq_ok_iff.mp created
  obtain ⟨owner, -⟩ := viewReached.current viewBuilt.rebinds
  by_cases sameElement : view.element = set.element
  case neg => exact ⟨_, if_neg sameElement, .inl rfl⟩
  rw [Subspace.indices, if_pos sameElement, Subspace.tree]
  by_cases sameTag : view.basis.tag = space.root.tag
  case neg =>
    rw [if_neg sameTag]
    exact ⟨_, rfl, .inr (.inl rfl)⟩
  rw [if_pos sameTag]
  have sameOwner := instances (owner ▸ sameTag)
  cases bound : view.element with
  | some entity => exact absurd ⟨sameOwner, entity, bound, sameElement ▸ bound⟩ apart
  | none =>
      rw [LocalView.boundTree, LocalView.isBound, bound]
      exact ⟨_, rfl, .inr (.inr rfl)⟩

/-- The indices of a subspace are those that the owner of the set has at the positions of the
subspace.  So they are those of the basis of the subspace if the set belongs to it, as the
view always has to.  Otherwise an assertion fails. -/
theorem subspace_indices_by_set_owner (built : Built grid 0 root)
    (viewBuilt : Built viewGrid 0 viewOwner) (setBuilt : Built setGrid 0 setOwner)
    (instances : viewOwner.tag = root.tag → viewOwner = root)
    (created : Subspace.create root path = .ok space)
    (viewReached : LocalView.Reached viewOwner view)
    (setReached : LocalIndexSet.Reached setOwner true set) :
    (∀ listed, space.indices view set = .ok listed ↔ viewOwner = root ∧ ∃ entity positions,
      view.element = some entity ∧ set.element = some entity ∧
      space.positions entity.index = .ok positions ∧
      setOwner.indicesAt entity.index positions = .ok listed) ∧
    (setOwner = root → ∀ listed, space.indices view set = .ok listed → ∃ entity,
      view.element = some entity ∧
      space.positions entity.index >>= root.indicesAt entity.index = .ok listed) ∧
    ∀ fault, space.indices view set = .error fault → fault = .subspaceElementsDiffer ∨
      fault = .subspaceOfForeignView ∨ fault = .unboundView ∨ fault = .localIndex := by
  by_cases together : viewOwner = root ∧ ∃ entity, view.element = some entity ∧
      set.element = some entity
  case neg =>
    obtain ⟨fault, refused, reason⟩ :=
      Subspace.indices_of_apart viewBuilt instances created viewReached together
    rw [refused]
    refine ⟨fun listed => ⟨nofun, ?_⟩, fun _ => nofun, ?_⟩
    · rintro ⟨sameOwner, entity, -, bound, sameElement, -⟩
      exact absurd ⟨sameOwner, entity, bound, sameElement⟩ together
    · rintro _ ⟨⟩
      exact reason.imp_right (Or.imp_right .inl)
  obtain ⟨rfl, entity, bound, sameElement⟩ := together
  have lists := Subspace.indices_of_bound built setBuilt created viewReached setReached bound
    sameElement
  refine ⟨fun listed => ?_, ?_, fun fault refused => ?_⟩
  · rw [lists, bind_eq_ok_iff]
    constructor
    · rintro ⟨positions, located, listedThere⟩
      exact ⟨rfl, entity, positions, bound, sameElement, located, listedThere⟩
    · rintro ⟨-, other, positions, boundOther, -, located, listedThere⟩
      obtain rfl := Option.some.inj (bound.symm.trans boundOther)
      exact ⟨positions, located, listedThere⟩
  · rintro rfl listed listedHere
    exact ⟨entity, bound, lists ▸ listedHere⟩
  · obtain ⟨positions, located⟩ := Subspace.exists_positions built created viewReached bound
    rw [lists, Subspace.positions_eq built created viewReached bound, located, ok_bind,
      Basis.indicesAt_eq setBuilt setReached sameElement] at refused
    obtain ⟨position, -, refusedHere⟩ := exists_of_mapM_eq_error refused
    exact .inr (.inr (.inr (setReached.eq_of_index_eq_error setBuilt sameElement refusedHere)))

end Owners

namespace Sample

/-- A plane vector of linear functions. -/
def linearPair : Basis := PowerBasis.toBasis ⟨.blockedLexicographic, 2, corner.toBasis⟩

theorem linearPair_built : Built (triangleView.toGridView 0) 0 linearPair :=
  .power _ 2 (Nat.zero_le 2) (.lagrange corner_created)

/-- A plane vector of quadratic functions, which is another instance of the same type. -/
def quadraticPair : Basis :=
  (PowerBasis.toBasis ⟨.blockedLexicographic, 2,
    (⟨triangleView.toGridView 0, .quadratic, 6⟩ : LagrangeBasis).toBasis⟩).withTag 1

theorem quadraticPair_built : Built (triangleView.toGridView 0) 0 quadraticPair :=
  .tagged 1 (.power _ 2 (Nat.zero_le 2)
    (.lagrange (rfl : LagrangeBasis.create (triangleView.toGridView 0) 2 = .ok _)))

end Sample

/-- The second component, with a view of its basis and a set of the other one. -/
theorem subspace_indices_by_set_owner_pairs : ∃ view own otherView other space,
    bindFresh Sample.linearPair 0 = .ok (view, own) ∧
    bindFresh Sample.quadraticPair 0 = .ok (otherView, other) ∧
    Subspace.create Sample.linearPair [1] = .ok space ∧ space.positions 0 = .ok [3, 4, 5] ∧
    Sample.quadraticPair.indicesAt 0 [3, 4, 5] = .ok [[0, 3], [0, 4], [0, 5]] ∧
    space.indices view other = .ok [[0, 3], [0, 4], [0, 5]] := by
  have anew : (bindFresh Sample.linearPair 0 >>= fun both => both.2.boundSize) = .ok 6 := by
    decide +kernel
  have anewOther : (bindFresh Sample.quadraticPair 0 >>= fun both => both.2.boundSize) = .ok 12 := by
    decide +kernel
  obtain ⟨⟨view, own⟩, ran, -⟩ := bind_eq_ok_iff.mp anew
  obtain ⟨⟨otherView, other⟩, ranOther, -⟩ := bind_eq_ok_iff.mp anewOther
  obtain ⟨⟨viewReached, bound⟩, -⟩ := reached_of_bindFresh ran
  obtain ⟨-, setReached, sameElement⟩ := reached_of_bindFresh ranOther
  let space : Subspace := ⟨Sample.linearPair, [1], .lagrange 1⟩
  have created : Subspace.create Sample.linearPair [1] = .ok space := rfl
  have located : space.positions 0 = .ok [3, 4, 5] := by decide +kernel
  have listed : Sample.quadraticPair.indicesAt 0 [3, 4, 5] =
      .ok [[0, 3], [0, 4], [0, 5]] := by decide +kernel
  obtain ⟨lists, -⟩ := subspace_indices_by_set_owner Sample.linearPair_built
    Sample.linearPair_built Sample.quadraticPair_built (fun _ => rfl) created viewReached
    setReached
  exact ⟨view, own, otherView, other, space, ran, ranOther, created, located, listed,
    (lists _).mpr ⟨rfl, _, _, bound, sameElement, located, listed⟩⟩

/-- The set of the other basis gives its indices, although the basis of the subspace has others
at these positions, and no assertion fails. -/
theorem foreign_set_lists_other_indices : ∃ view own otherView other space,
    bindFresh Sample.linearPair 0 = .ok (view, own) ∧
    bindFresh Sample.quadraticPair 0 = .ok (otherView, other) ∧
    Subspace.create Sample.linearPair [1] = .ok space ∧
    space.indices view own = .ok [[1, 0], [1, 1], [1, 2]] ∧
    space.positions 0 >>= Sample.linearPair.indicesAt 0 = .ok [[1, 0], [1, 1], [1, 2]] ∧
    space.indices view other = .ok [[0, 3], [0, 4], [0, 5]] := by
  let space : Subspace := ⟨Sample.linearPair, [1], .lagrange 1⟩
  have lists : (do
      let (view, own) ← bindFresh Sample.linearPair 0
      let (_, other) ← bindFresh Sample.quadraticPair 0
      Except.ok (space.indices view own, space.indices view other)) =
        .ok (.ok [[1, 0], [1, 1], [1, 2]], .ok [[0, 3], [0, 4], [0, 5]]) := by decide +kernel
  obtain ⟨⟨view, own⟩, ran, listsOther⟩ := bind_eq_ok_iff.mp lists
  obtain ⟨⟨otherView, other⟩, ranOther, same⟩ := bind_eq_ok_iff.mp listsOther
  obtain ⟨listsOwn, listsForeign⟩ := Prod.mk.inj (Except.ok.inj same)
  exact ⟨view, own, otherView, other, space, ran, ranOther, rfl, listsOwn, by decide +kernel,
    listsForeign⟩

end DofNumbering
