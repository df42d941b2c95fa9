import DofNumbering.Proofs.Paths
import DofNumbering.Proofs.Recording

namespace DofNumbering

/-! Subspaces share out the local degrees of freedom.

The indices of a subspace are those of its places, which need not be consecutive.  As
places are not repeated in a tree, and the numbering of an element does not repeat an
index, what holds of the places holds of the indices.
-/

variable {grid : GridView} {basis : Basis} {numbering : Numbering} {element : Nat}
  {view : LocalView} {set : LocalIndexSet} {path path' : List Nat} {node : LocalNode}
  {space : Subspace}

/-- A view and a set of a basis on one element: the tree is dense, and the set shows the
numbering. -/
structure Numbering.OnElement (numbering : Numbering) (basis : Basis) (element : Nat)
    (view : LocalView) (set : LocalIndexSet) : Prop where
  owner : view.basis = basis
  bound : view.boundTree = .ok view.tree
  sameElement : view.element = set.element
  outlines : basis.description.Outlines view.tree
  dense : view.tree.Dense element
  counted : view.tree.Counted
  size : view.tree.size = numbering.size
  room : view.tree.size < Index.limit
  index : ∀ j < numbering.size, set.index j = .ok (numbering.index element j)
  indices : set.indices = .ok ((List.range numbering.size).map (numbering.index element))

namespace Numbering.OnElement

variable (shown : numbering.OnElement basis element view set)
include shown

theorem lt_size {place : Nat} (inTree : place ∈ view.tree.places) : place < numbering.size := by
  obtain ⟨j, below, rfl⟩ := (shown.dense.places.2 place).mp inTree
  rwa [Nat.zero_add, Nat.mul_one, ← shown.size]

theorem exists_node (created : Subspace.create basis path = .ok space) :
    ∃ node, view.tree.descendant? path = some node ∧ space.tree view = .ok node := by
  obtain ⟨node, found, tree, -⟩ :=
    Subspace.exists_tree created shown.owner shown.outlines shown.bound
  exact ⟨node, found, tree⟩

theorem exists_subspace (found : view.tree.descendant? path = some node) :
    ∃ space, Subspace.create basis path = .ok space :=
  (Subspace.exists_create_iff shown.outlines).mpr ⟨node, found⟩

/-- A subspace lists the indices at the places of its node. -/
theorem indices_eq_ok (created : Subspace.create basis path = .ok space)
    (found : view.tree.descendant? path = some node) :
    space.indices view set = .ok (node.places.map (numbering.index element)) := by
  obtain ⟨other, foundOther, tree⟩ := shown.exists_node created
  obtain rfl : node = other := Option.some.inj (found.symm.trans foundOther)
  rw [Subspace.indices, if_pos shown.sameElement, tree, ok_bind,
    shown.dense.localIndices_descendant shown.room found, ok_bind]
  refine mapM_eq_ok (fun place inNode => shown.index place ?_)
  exact shown.lt_size ((LocalNode.places_sublist found).subset inNode)

theorem localSize_eq_ok (created : Subspace.create basis path = .ok space)
    (found : view.tree.descendant? path = some node) :
    space.localSize view = .ok node.places.length := by
  obtain ⟨other, foundOther, tree⟩ := shown.exists_node created
  obtain rfl : node = other := Option.some.inj (found.symm.trans foundOther)
  rw [Subspace.localSize, tree, ok_bind, (shown.counted.descendant found).length_places]

/-- The children of an inner node share out its indices in their order. -/
theorem exists_parts (found : view.tree.descendant? path = some node)
    (isInner : node.isLeaf = false) : ∃ parts : List (List MultiIndex),
      parts.length = node.children.length ∧
      parts.flatten = node.places.map (numbering.index element) ∧
      ∀ (k : Nat) (part : List MultiIndex), parts[k]? = some part → ∃ child,
        Subspace.create basis (path ++ [k]) = .ok child ∧ child.indices view set = .ok part := by
  cases node with
  | leaf leaf => contradiction
  | inner kind children size =>
      refine ⟨children.map (fun child => child.places.map (numbering.index element)),
        List.length_map _, ?_, fun k part foundPart => ?_⟩
      · rw [LocalNode.places_inner, List.map_flatMap, List.flatMap_def]
      · rw [List.getElem?_map, Option.map_eq_some_iff] at foundPart
        obtain ⟨child, foundChild, rfl⟩ := foundPart
        have foundInner : view.tree.descendant? (path ++ [k]) = some child :=
          (LocalNode.descendant?_concat found).trans foundChild
        obtain ⟨space, created⟩ := shown.exists_subspace foundInner
        exact ⟨space, created, shown.indices_eq_ok created foundInner⟩

theorem perm_of_root : (view.tree.places.map (numbering.index element)).Perm
    ((List.range numbering.size).map (numbering.index element)) := by
  have perm := LocalNode.perm_range_of_enumerates shown.dense.places
  rw [shown.size] at perm
  exact perm.map _

/-- Every index is one of a leaf. -/
theorem exists_leaf {index : MultiIndex}
    (inSet : index ∈ (List.range numbering.size).map (numbering.index element)) :
    ∃ path space leaf listed, Subspace.create basis path = .ok space ∧
      space.tree view = .ok (.leaf leaf) ∧ space.indices view set = .ok listed ∧
      index ∈ listed := by
  obtain ⟨place, inTree, rfl⟩ := List.mem_map.mp (shown.perm_of_root.mem_iff.mpr inSet)
  obtain ⟨path, leaf, found, inLeaf⟩ := LocalNode.exists_leaf_of_place inTree
  obtain ⟨space, created⟩ := shown.exists_subspace found
  obtain ⟨other, foundOther, tree⟩ := shown.exists_node created
  obtain rfl := Option.some.inj (found.symm.trans foundOther)
  exact ⟨path, space, leaf, _, created, tree, shown.indices_eq_ok created found,
    List.mem_map_of_mem inLeaf⟩

section Injective

variable (injective : ∀ j < numbering.size, ∀ k < numbering.size,
  numbering.index element j = numbering.index element k → j = k)
include injective

theorem nodup (found : view.tree.descendant? path = some node) :
    (node.places.map (numbering.index element)).Nodup := by
  have inTree := LocalNode.places_sublist found
  refine (shown.dense.places.1.sublist inTree).map_on (fun place inNode place' inNode' same => ?_)
  exact injective place (shown.lt_size (inTree.subset inNode)) place'
    (shown.lt_size (inTree.subset inNode')) same

theorem disjoint {node' : LocalNode} (apart : ¬ path <+: path') (apart' : ¬ path' <+: path)
    (found : view.tree.descendant? path = some node)
    (found' : view.tree.descendant? path' = some node') :
    (node.places.map (numbering.index element)).Disjoint
      (node'.places.map (numbering.index element)) := by
  have disjoint := LocalNode.disjoint_of_apart shown.dense.places.1 apart apart' found found'
  intro index inList inList'
  obtain ⟨place, inNode, rfl⟩ := List.mem_map.mp inList
  obtain ⟨place', inNode', same⟩ := List.mem_map.mp inList'
  obtain rfl : place' = place :=
    injective place' (shown.lt_size ((LocalNode.places_sublist found').subset inNode')) place
      (shown.lt_size ((LocalNode.places_sublist found).subset inNode)) same
  exact disjoint inNode inNode'

end Injective

end Numbering.OnElement

/-- A view and a set that are bound to one element show the numbering there. -/
theorem Numbered.onElement {entity : Entity} {intact : Bool} {least : Nat}
    (numbered : Numbered grid least basis numbering) (built : Built grid least basis)
    (triangles : ∀ element < grid.size 0, grid.HasTriangle element)
    (viewReached : LocalView.Reached basis view) (setReached : LocalIndexSet.Reached basis intact set)
    (sound : intact = true ∨ basis.Fits grid) (bound : view.element = some entity)
    (sameElement : set.element = some entity) :
    numbering.OnElement basis entity.index view set := by
  obtain ⟨isElement, inGrid, ran, dense⟩ := viewReached.exists_bindNode built.rebinds bound
  obtain ⟨base, relocates⟩ := numbered.exists_relocates entity.index
  obtain rfl : view.tree = base :=
    (relocates.eq_moved relocates.createNode ran).trans base.moved_first
  have unharmed : LocalIndexSet.Reached basis true set := by
    rcases sound with rfl | fits
    · exact setReached
    · exact setReached.intact_of_fits built triangles fits
  obtain ⟨sameBasis, current⟩ := unharmed.current built.rebinds
  obtain ⟨freshView, fresh, bindsFresh, -, -, same⟩ := current entity sameElement
  rw [sameBasis] at bindsFresh
  have shows := numbered.shows_of_bindFresh bindsFresh
  exact {
    owner := (viewReached.current built.rebinds).1
    bound := LocalView.boundTree_of_element bound
    sameElement := bound.trans sameElement.symm
    outlines := viewReached.outlines built
    dense
    counted := built.counted ran
    size := relocates.size
    room := viewReached.size_lt built bound
    index := fun j below => ((same rfl).index j).trans (shows.index_eq_ok below)
    indices := (same rfl).indices.trans shows.indices_eq_ok }

/-- On every element of a mesh of distinct vertices, the subspaces of a basis with positive
exponents share out its indices: none is repeated within a subspace, the whole basis has all
of them, an inner node has those of its children in their order, nodes of which none is above
the other have none in common, and every index belongs to a leaf. -/
theorem subspaces_partition_indices {R : Type} {mesh : TriangleMesh R}
    {meshView : MeshView R Triangle} {tag : Nat} {entity : Entity} {intact : Bool}
    (viewed : MeshView.ofMesh mesh = .ok meshView) (distinct : mesh.Distinct)
    (built : Built (meshView.toGridView tag) 1 basis)
    (viewReached : LocalView.Reached basis view) (setReached : LocalIndexSet.Reached basis intact set)
    (sound : intact = true ∨ basis.Fits (meshView.toGridView tag))
    (bound : view.element = some entity) (sameElement : set.element = some entity) :
    ∃ all, set.indices = .ok all ∧
    (∀ path space, Subspace.create basis path = .ok space → ∃ node listed,
      space.tree view = .ok node ∧ space.indices view set = .ok listed ∧
      space.localSize view = .ok listed.length ∧ listed.Nodup ∧
      (path = [] → listed.Perm all) ∧
      (node.isLeaf = false → ∃ parts : List (List MultiIndex),
        parts.length = node.children.length ∧ parts.flatten = listed ∧
        ∀ k part, parts[k]? = some part → ∃ child,
          Subspace.create basis (path ++ [k]) = .ok child ∧ child.indices view set = .ok part)) ∧
    (∀ path path' space space' listed listed', ¬ path <+: path' → ¬ path' <+: path →
      Subspace.create basis path = .ok space → space.indices view set = .ok listed →
      Subspace.create basis path' = .ok space' → space'.indices view set = .ok listed' →
      listed.Disjoint listed') ∧
    ∀ index ∈ all, ∃ path space leaf listed, Subspace.create basis path = .ok space ∧
      space.tree view = .ok (.leaf leaf) ∧ space.indices view set = .ok listed ∧
      index ∈ listed := by
  have conforming := @MeshView.conforming _ _ _ tag viewed distinct
  obtain ⟨numbering, numbered⟩ := built.exists_numbering
  have shown := numbered.onElement built conforming.triangle viewReached setReached sound bound
    sameElement
  obtain ⟨isElement, contained, -⟩ := viewReached.exists_bindNode built.rebinds bound
  have inGrid : entity.index < (meshView.toGridView tag).size 0 := by
    rw [built.grid_eq] at contained
    simpa [GridView.contains, isElement] using contained
  have injective :=
    (numbered.lawful conforming (Nat.zero_lt_of_lt inGrid)).injective entity.index inGrid
  refine ⟨_, shown.indices, fun path space created => ?_, ?_, fun index => shown.exists_leaf⟩
  · obtain ⟨node, found, tree⟩ := shown.exists_node created
    refine ⟨node, _, tree, shown.indices_eq_ok created found, ?_, shown.nodup injective found, ?_,
      shown.exists_parts found⟩
    · rw [shown.localSize_eq_ok created found, List.length_map]
    · rintro rfl
      obtain rfl : view.tree = node := Option.some.inj found
      exact shown.perm_of_root
  · intro path path' space space' listed listed' apart apart' created lists created' lists'
    obtain ⟨node, found, -⟩ := shown.exists_node created
    obtain ⟨node', found', -⟩ := shown.exists_node created'
    obtain rfl := Except.ok.inj ((shown.indices_eq_ok created found).symm.trans lists)
    obtain rfl := Except.ok.inj ((shown.indices_eq_ok created' found').symm.trans lists')
    exact shown.disjoint injective apart apart' found found'

/-- The velocity and the pressure of a flow on the second of two triangles. -/
theorem subspaces_partition_indices_square : Sample.square.Distinct ∧
    ∃ view set velocity pressure, bindFresh Sample.flow.toBasis 1 = .ok (view, set) ∧
    (Subspace.create Sample.flow.toBasis [0]).toOption.map (fun space => space.indices view set) =
      some (.ok velocity) ∧
    (Subspace.create Sample.flow.toBasis [1]).toOption.map (fun space => space.indices view set) =
      some (.ok pressure) ∧
    velocity.Nodup ∧ pressure.Nodup ∧ velocity.Disjoint pressure := by
  have anew : (bindFresh Sample.flow.toBasis 1 >>= fun both => both.2.boundSize) = .ok 15 := by
    decide +kernel
  obtain ⟨⟨view, set⟩, ran, -⟩ := bind_eq_ok_iff.mp anew
  obtain ⟨⟨viewReached, bound⟩, setReached, sameElement⟩ := reached_of_bindFresh ran
  obtain ⟨all, -, each, disjoint, -⟩ := subspaces_partition_indices Sample.square_viewed
    Sample.square_distinct Sample.flow_built viewReached setReached (.inl rfl) bound sameElement
  obtain ⟨-, velocity, -, lists, -, nodup, -⟩ := each [0] _ rfl
  obtain ⟨-, pressure, -, lists', -, nodup', -⟩ := each [1] _ rfl
  exact ⟨Sample.square_distinct, view, set, velocity, pressure, ran, congrArg some lists,
    congrArg some lists', nodup, nodup',
    disjoint [0] [1] _ _ _ _ (by decide) (by decide) rfl lists rfl lists'⟩

end DofNumbering
