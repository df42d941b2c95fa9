import DofNumbering.Proofs.Basis.Relocation
import DofNumbering.Proofs.Local.IndexSet
import DofNumbering.Proofs.Local.Rewriting

namespace DofNumbering

/-! Bound views and index sets are like new ones.

Binding a view rewrites its tree, and binding a set rewrites all entries that belong
to the element.  So neither keeps anything of what it was bound to before, on any
grid view and whether the numbers involved are indices or not.
-/

/-- What makes binding independent of earlier bindings. -/
structure Basis.Rebinds (basis : Basis) : Prop where
  createNode : basis.createNode.released = basis.createNode
  bindNode : ∀ {node bound : LocalNode} {element : Nat}, node.released = basis.createNode →
    basis.bindNode node element 0 1 = .ok bound →
    basis.bindNode basis.createNode element 0 1 = .ok bound ∧
      bound.released = basis.createNode ∧ bound.Dense element
  rewrites : ∀ node, Rewrites (basis.indices node) ∅ {place | place ∈ node.places}

theorem Built.rebinds {grid : GridView} {least : Nat} {basis : Basis}
    (built : Built grid least basis) : basis.Rebinds := by
  obtain ⟨numbering, numbered⟩ := built.exists_numbering
  refine ⟨?_, fun {node bound element} shape ran => ?_, built.rewrites⟩
  · obtain ⟨base, relocates⟩ := numbered.exists_relocates 0
    exact relocates.createNode
  · obtain ⟨base, relocates⟩ := numbered.exists_relocates element
    obtain rfl : bound = base := (relocates.eq_moved shape ran).trans base.moved_first
    obtain ⟨-, again⟩ := relocates.shrinks shape ran
    have fresh := again _ relocates.createNode 0 (Nat.le_refl 0) 1 (Nat.le_refl 1) (.inl Nat.one_pos)
    rw [LocalNode.moved_first] at fresh
    exact ⟨fresh, relocates.released, relocates.dense⟩

/-- How a tree is bound, or why it cannot be, depends on its shape only. -/
theorem Built.bindNode_congr {grid : GridView} {least : Nat} {basis : Basis}
    (built : Built grid least basis) {node node' : LocalNode}
    (same : node.released = node'.released) (element offset stride : Nat) :
    basis.bindNode node element offset stride = basis.bindNode node' element offset stride := by
  induction built generalizing node node' offset stride with
  | lagrange _ =>
      rcases LocalNode.cases_of_released_eq same with ⟨⟨_, _, _, _⟩, ⟨_, _, _, _⟩, rfl, rfl, rfl⟩ |
        ⟨kind, children, children', size, size', rfl, rfl, -⟩
      · rfl
      · rfl
  | power merging exponent _ _ ih =>
      rcases LocalNode.cases_of_released_eq same with ⟨leaf, leaf', rfl, rfl, -⟩ |
        ⟨kind, children, children', size, size', rfl, rfl, sameChildren⟩
      · rfl
      · cases kind with
        | composite => rfl
        | power =>
            simp only [PowerBasis.toBasis, PowerBasis.bindNode, LocalNode.expectPower, ok_bind]
            rw [bindChildren_congr sameChildren (fun _ _ _ offset stride sameShape =>
              ih sameShape offset stride)]
  | @composite blocked members basis created _ ih =>
      rcases LocalNode.cases_of_released_eq same with ⟨leaf, leaf', rfl, rfl, -⟩ |
        ⟨kind, children, children', size, size', rfl, rfl, sameChildren⟩
      · rfl
      · cases kind with
        | power => rfl
        | composite =>
            cases CompositeBasis.create_eq_ok created
            simp only [CompositeBasis.toBasis, CompositeBasis.bindNode, LocalNode.expectComposite,
              ok_bind]
            rw [bindChildren_congr sameChildren (fun child _ _ offset stride sameShape => ?_)]
            cases found : members.member child with
            | error fault => rfl
            | ok member => exact ih member (members.mem_of_member found) sameShape offset stride
  | tagged _ _ ih => exact ih same offset stride

theorem Entity.element_index {entity : Entity} (isElement : entity.codim = 0) :
    Entity.element entity.index = entity := by
  rw [Entity.element, ← isElement]

namespace LocalView

variable {view after : LocalView} {entity : Entity}

theorem bind_eq_ok_iff : view.bind entity = .ok after ↔
    entity.codim = 0 ∧ view.basis.grid.contains entity = true ∧
      ∃ tree, view.basis.bindNode view.tree entity.index 0 1 = .ok tree ∧
        after = { view with element := some entity, tree } := by
  unfold bind
  by_cases isElement : entity.codim = 0
  · by_cases inGrid : view.basis.grid.contains entity = true
    · rw [if_neg (not_not.mpr isElement), if_pos inGrid, DofNumbering.bind_eq_ok_iff]
      simp only [isElement, inGrid, true_and, Except.ok.injEq, eq_comm]
    · simp [isElement, inGrid]
  · simp [isElement]

/-- The view has the tree of its basis and is, if it is bound, like a new view that is
bound to the same element. -/
structure Current (view : LocalView) : Prop where
  shape : view.tree.released = view.basis.createNode
  fresh : ∀ entity, view.element = some entity → (create view.basis).bind entity = .ok view

theorem current_create {basis : Basis} (rebinds : basis.Rebinds) : (create basis).Current :=
  ⟨rebinds.createNode, fun _ bound => nomatch bound⟩

namespace Current

theorem unbind (current : view.Current) : view.unbind.Current :=
  ⟨current.shape, fun _ bound => nomatch bound⟩

/-- Binding leaves nothing of the element that the view had before. -/
theorem bind (current : view.Current) (rebinds : view.basis.Rebinds)
    (bound : view.bind entity = .ok after) :
    after.Current ∧ after.basis = view.basis ∧ after.element = some entity := by
  obtain ⟨isElement, inGrid, tree, ran, rfl⟩ := bind_eq_ok_iff.mp bound
  obtain ⟨again, released, -⟩ := rebinds.bindNode current.shape ran
  refine ⟨⟨released, fun other same => ?_⟩, rfl, rfl⟩
  obtain rfl : entity = other := Option.some.inj same
  exact bind_eq_ok_iff.mpr ⟨isElement, inGrid, tree, again, rfl⟩

/-- Binding the view, or what stops it, is like binding a new view. -/
theorem bind_eq {grid : GridView} {least : Nat} (current : view.Current)
    (built : Built grid least view.basis) (entity : Entity) :
    view.bind entity = (create view.basis).bind entity := by
  have same : view.tree.released = (create view.basis).tree.released :=
    current.shape.trans built.rebinds.createNode.symm
  have sameTree := built.bindNode_congr same entity.index 0 1
  unfold LocalView.bind
  rw [sameTree]
  rfl

theorem dense (current : view.Current) (rebinds : view.basis.Rebinds)
    (bound : view.element = some entity) : view.tree.Dense entity.index := by
  obtain ⟨-, -, tree, ran, same⟩ := bind_eq_ok_iff.mp (current.fresh entity bound)
  obtain ⟨-, -, dense⟩ := rebinds.bindNode rebinds.createNode ran
  rw [same]
  exact dense

end Current

end LocalView

namespace LocalIndexSet

variable {view : LocalView} {set set' : LocalIndexSet} {entity : Entity}

/-- Both sets answer every question in the same way. -/
structure SameAnswers (set set' : LocalIndexSet) : Prop where
  boundSize : set.boundSize = set'.boundSize
  index : ∀ position, set.index position = set'.index position
  indices : set.indices = set'.indices

/-- Sets with the same beginning of their buffers answer in the same way. -/
theorem sameAnswers_of_buffer {basis : Basis} {element : Option Entity} {size : Nat}
    {written others others' : Buffer} (filled : written.size = size) :
    SameAnswers ⟨basis, element, size, written ++ others⟩ ⟨basis, element, size, written ++ others'⟩ := by
  refine ⟨rfl, fun position => ?_, ?_⟩
  · unfold index
    by_cases below : position < size
    · simp only [below, if_true, Index.lookUp, Array.getElem?_append_left (filled ▸ below)]
      rfl
    · simp only [below, if_false]
      rfl
  · simp only [indices, Array.toList_append, ← filled, ← Array.length_toList, List.take_left']
    rfl

/-- The part of the buffer that a binding writes. -/
def front (set : LocalIndexSet) (size : Nat) : Buffer := (grown set.buffer size).extract 0 size

/-- The part of the buffer that a binding keeps. -/
def back (set : LocalIndexSet) (size : Nat) : Buffer :=
  (grown set.buffer size).extract size (grown set.buffer size).size

theorem size_front (set : LocalIndexSet) (size : Nat) : (set.front size).size = size := by
  have enough := grown_size set.buffer size
  rw [front, Array.size_extract]
  omega

theorem bind_of_bound (isBound : view.isBound = true) (owner : view.basis.tag = set.basis.tag) :
    LocalIndexSet.bind view set =
      match set.basis.indices view.tree (set.front view.tree.size) with
      | .ok _ written => .ok () ⟨set.basis, view.element, view.tree.size,
          written ++ set.back view.tree.size⟩
      | .error fault written => .error fault { set with
          buffer := written ++ set.back view.tree.size } := by
  rw [bind, if_pos isBound, if_pos owner]
  rfl

/-- A set is bound to a view like every other one, or is stopped by the same fault. -/
theorem bind_eq_or_stopped (rebinds : set.basis.Rebinds) (dense : view.tree.Dense entity.index)
    (isBound : view.isBound = true) (owner : view.basis.tag = set.basis.tag)
    (same : set'.basis = set.basis) :
    (∃ after after', LocalIndexSet.bind view set = .ok () after ∧
      LocalIndexSet.bind view set' = .ok () after' ∧ after.SameAnswers after' ∧
      after.basis = set.basis ∧ after.element = view.element ∧ after'.element = view.element) ∨
    ∃ fault left left', LocalIndexSet.bind view set = .error fault left ∧
      LocalIndexSet.bind view set' = .error fault left' ∧ ∃ buffer, left = { set with buffer } := by
  rw [bind_of_bound isBound owner, bind_of_bound isBound (same ▸ owner), same]
  have agree : Buffer.AgreeAt view.tree.size ∅ (set.front view.tree.size)
      (set'.front view.tree.size) :=
    ⟨set.size_front _, set'.size_front _, fun _ inHeld => absurd inHeld (Set.notMem_empty _)⟩
  rcases rebinds.rewrites view.tree _ ∅ _ _ subset_rfl agree with
    ⟨_, written, written', run, run', agree⟩ | ⟨fault, written, written', run, run'⟩
  · -- the places of the tree are all places of the front
    obtain rfl : written = written' := by
      refine Array.ext_getElem? (fun place => ?_)
      by_cases inTree : place < view.tree.size
      · refine agree.entries place (.inr ((dense.places.2 place).mpr ⟨place, inTree, ?_⟩))
        rw [Nat.zero_add, Nat.mul_one]
      · rw [Array.getElem?_eq_none (by rw [agree.leftSize]; omega),
          Array.getElem?_eq_none (by rw [agree.rightSize]; omega)]
    simp only [run, run']
    exact .inl ⟨_, _, rfl, rfl, sameAnswers_of_buffer agree.leftSize, rfl, rfl, rfl⟩
  · simp only [run, run']
    exact .inr ⟨fault, _, _, rfl, rfl, _, rfl⟩

/-- The set is unbound or answers like a new set that is bound to a new view of the element,
at least about its size if it is not reliable. -/
def Current (set : LocalIndexSet) (reliable : Prop) : Prop :=
  ∀ entity, set.element = some entity → ∃ view fresh,
    bindFresh set.basis entity.index = .ok (view, fresh) ∧ fresh.element = some entity ∧
      set.boundSize = fresh.boundSize ∧ (reliable → set.SameAnswers fresh)

theorem current_of_unbound {reliable : Prop} (unbound : set.element = none) :
    set.Current reliable := by
  intro entity bound
  rw [unbound] at bound
  contradiction

theorem current_of_bind {reliable : Prop} {after : LocalIndexSet} (current : view.Current)
    (rebinds : set.basis.Rebinds) (owner : view.basis = set.basis)
    (ran : LocalIndexSet.bind view set = .ok () after) :
    after.Current reliable ∧ after.basis = set.basis ∧ after.element = view.element := by
  have isBound : view.isBound = true := by
    by_contra unbound
    rw [bind, if_neg unbound] at ran
    contradiction
  obtain ⟨entity, bound⟩ := Option.isSome_iff_exists.mp isBound
  have dense := current.dense (owner ▸ rebinds) bound
  have same : (create set.basis).basis = set.basis := rfl
  rcases bind_eq_or_stopped rebinds dense isBound (congrArg Basis.tag owner) same with
    ⟨_, fresh, ran', freshRan, same, sameBasis, element, freshElement⟩ | ⟨_, _, _, stopped, -⟩
  · obtain rfl := (EStateM.Result.ok.inj (ran.symm.trans ran')).2
    refine ⟨fun other found => ⟨view, fresh, ?_, freshElement.trans (element.symm.trans found),
      same.boundSize, fun _ => same⟩, sameBasis, element⟩
    obtain rfl : entity = other :=
      Option.some.inj (bound.symm.trans (element.symm.trans found))
    have freshView := current.fresh entity bound
    obtain ⟨isElement, -⟩ := LocalView.bind_eq_ok_iff.mp freshView
    rw [bindFresh, sameBasis, Entity.element_index isElement, ← owner, freshView, ok_bind, owner,
      Change.result, freshRan, ok_bind]
  · rw [ran] at stopped
    contradiction

namespace Current

variable {reliable reliable' : Prop}

theorem mono (current : set.Current reliable) (weaker : reliable' → reliable) :
    set.Current reliable' := by
  intro entity bound
  obtain ⟨view, fresh, ran, element, size, same⟩ := current entity bound
  exact ⟨view, fresh, ran, element, size, same ∘ weaker⟩

/-- A set that has been written over keeps its element and its size. -/
theorem writtenOver (current : set.Current reliable) (buffer : Buffer) (unreliable : ¬ reliable') :
    Current { set with buffer } reliable' := by
  intro entity bound
  obtain ⟨view, fresh, ran, element, size, -⟩ := current entity bound
  exact ⟨view, fresh, ran, element, size, fun claimed => absurd claimed unreliable⟩

end Current

end LocalIndexSet

/-- The dimension and the bound on the local sizes are indices, with exponents zero read as one. -/
def Basis.Fits (grid : GridView) (basis : Basis) : Prop :=
  (∃ dimension size, Built grid 1 basis ∧ basis.dimension = .ok dimension ∧
    basis.maxNodeSize = .ok size ∧ dimension < Index.limit ∧ size < Index.limit) ∨
  ∃ numbering, Numbered grid 0 basis numbering ∧ numbering.dofs < Index.limit ∧
    numbering.places < Index.limit

theorem Basis.Fits.exists_numbering {grid : GridView} {basis : Basis} (fits : basis.Fits grid) :
    ∃ least numbering, Numbered grid least basis numbering ∧ numbering.dofs < Index.limit ∧
      numbering.places < Index.limit := by
  rcases fits with ⟨dimension, size, built, counted, sized, room, roomSize⟩ | ⟨numbering, numbered⟩
  · obtain ⟨numbering, numbered⟩ := built.exists_numbering
    exact ⟨1, numbering, numbered, by rwa [numbered.dofs_eq counted room],
      by rwa [numbered.places_eq sized roomSize]⟩
  · exact ⟨0, numbering, numbered⟩

/-- If the numbers are indices, no fault stops the writing of the indices of a triangle. -/
theorem Basis.Fits.exists_bind {grid : GridView} {view : LocalView} {set : LocalIndexSet}
    {entity : Entity} (fits : set.basis.Fits grid)
    (triangles : ∀ element < grid.size 0, grid.HasTriangle element) (current : view.Current)
    (owner : view.basis = set.basis) (bound : view.element = some entity) :
    ∃ after, LocalIndexSet.bind view set = .ok () after := by
  obtain ⟨least, numbering, numbered, roomDofs, roomPlaces⟩ := fits.exists_numbering
  have freshView := current.fresh entity bound
  obtain ⟨isElement, inGrid, -⟩ := LocalView.bind_eq_ok_iff.mp freshView
  have inSize : entity.index < grid.size 0 := by
    change view.basis.grid.contains entity = true at inGrid
    rw [owner, numbered.grid_eq] at inGrid
    simpa [GridView.contains, isElement] using inGrid
  have realizes := numbered.realizes (triangles _ inSize) roomDofs roomPlaces
  obtain ⟨freshBound, ran, of, -, binds⟩ := LocalView.exists_bind (LocalView.of_create realizes)
    realizes (by rwa [numbered.grid_eq]) roomPlaces
  rw [Entity.element_index isElement, ← owner] at ran
  obtain rfl := Except.ok.inj (ran.symm.trans freshView)
  have isBound : freshBound.isBound = true := by rw [LocalView.isBound, bound, Option.isSome_some]
  obtain ⟨after, bindsSet, -⟩ := LocalIndexSet.exists_bind rfl of isBound binds
  exact ⟨after, bindsSet⟩

theorem Basis.Fits.exists_bindFresh {grid : GridView} {basis : Basis} {element : Nat}
    (fits : basis.Fits grid) (triangle : grid.HasTriangle element)
    (inGrid : element < grid.size 0) : ∃ pair, bindFresh basis element = .ok pair := by
  obtain ⟨least, numbering, numbered, roomDofs, roomPlaces⟩ := fits.exists_numbering
  have realizes := numbered.realizes triangle roomDofs roomPlaces
  rw [← numbered.grid_eq] at inGrid
  obtain ⟨view, set, bound, -⟩ := realizes.exists_bindFresh inGrid roomPlaces
  exact ⟨(view, set), bound⟩

end DofNumbering
