import DofNumbering.Proofs.Reached
import DofNumbering.Proofs.Samples
import DofNumbering.Subspace

namespace DofNumbering

/-! Descriptions, local trees and subspaces have the same paths.

A description and a tree are compared node by node.  The comparison does not see what
binding changes, so what holds of a new tree holds of all trees of a view.
-/

namespace Description

def kind : Description → NodeKind
  | .lagrange _ => .leaf
  | .power .. => .power
  | .composite .. => .composite

/-- The description tells the form of a tree. -/
inductive Outlines : Description → LocalNode → Prop
  | lagrange {order : Nat} {leaf : LeafNode} (sameOrder : leaf.finite.order = order) :
      Outlines (.lagrange order) (.leaf leaf)
  | power {child : Description} {exponent size : Nat} {merging : Merging}
      {children : List LocalNode} (count : children.length = exponent)
      (each : ∀ node ∈ children, Outlines child node) :
      Outlines (.power child exponent merging) (.inner .power children size)
  | composite {descriptions : List Description} {size : Nat} {merging : Merging}
      {children : List LocalNode} (count : children.length = descriptions.length)
      (each : ∀ (k : Nat) (description : Description) (node : LocalNode),
        descriptions[k]? = some description → children[k]? = some node →
          Outlines description node) :
      Outlines (.composite descriptions merging) (.inner .composite children size)

theorem get?_append (description : Description) (path rest : List Nat) :
    description.get? (path ++ rest) =
      (description.get? path).bind (fun inner => inner.get? rest) := by
  induction path generalizing description with
  | nil => rw [get?]; rfl
  | cons k path ih =>
      rw [List.cons_append, get?, get?]
      cases description.child? k with
      | none => rfl
      | some child => exact ih child

namespace Outlines

variable {description : Description} {node outline : LocalNode}

theorem kind_eq (outlines : Outlines description node) : node.kind = description.kind := by
  cases outlines <;> rfl

theorem length_children (outlines : Outlines description node) :
    node.children.length = description.numChildren := by
  cases outlines with
  | lagrange _ => rfl
  | power count _ => exact count
  | composite count _ => exact count

theorem of_leaf {leaf : LeafNode} (outlines : Outlines description (.leaf leaf)) :
    description = .lagrange leaf.finite.order := by
  cases outlines with
  | lagrange sameOrder => rw [sameOrder]

theorem child? (outlines : Outlines description node) (k : Nat) :
    Option.Rel Outlines (description.child? k) node.children[k]? := by
  cases outlines with
  | lagrange _ => exact .none
  | @power child exponent _ _ children count each =>
      by_cases below : k < exponent
      · have found := List.getElem?_eq_getElem (count.symm ▸ below : k < children.length)
        rw [Description.child?, if_pos below, LocalNode.children, found]
        exact .some (each _ (List.getElem_mem _))
      · rw [Description.child?, if_neg below, LocalNode.children,
          List.getElem?_eq_none (by omega)]
        exact .none
  | @composite descriptions _ _ children count each =>
      rw [Description.child?, LocalNode.children]
      by_cases below : k < children.length
      · have found := List.getElem?_eq_getElem below
        have described := List.getElem?_eq_getElem (count ▸ below : k < descriptions.length)
        rw [found, described]
        exact .some (each k _ _ described found)
      · rw [List.getElem?_eq_none (by omega), List.getElem?_eq_none (by omega)]
        exact .none

/-- The node at a path of the description belongs to that of the tree. -/
theorem get? (outlines : Outlines description node) (path : List Nat) :
    Option.Rel Outlines (description.get? path) (node.descendant? path) := by
  induction path generalizing description node with
  | nil =>
      rw [Description.get?, LocalNode.descendant?]
      exact .some outlines
  | cons k rest ih =>
      rw [Description.get?, LocalNode.descendant?_cons]
      have related := outlines.child? k
      generalize description.child? k = described, node.children[k]? = found at related ⊢
      cases related with
      | none => exact .none
      | some child => exact ih child

theorem exists_descendant (outlines : Outlines description node) {path : List Nat}
    {inner : Description} (described : description.get? path = some inner) :
    ∃ found, node.descendant? path = some found ∧ inner.Outlines found := by
  have related := described ▸ outlines.get? path
  generalize node.descendant? path = found at related
  cases related with
  | some innerOutlines => exact ⟨_, rfl, innerOutlines⟩

theorem exists_description (outlines : Outlines description node) {path : List Nat}
    {inner : LocalNode} (found : node.descendant? path = some inner) :
    ∃ described, description.get? path = some described := by
  have related := found ▸ outlines.get? path
  generalize description.get? path = described at related
  cases related with
  | some _ => exact ⟨_, rfl⟩

/-- Binding does not change the form of a tree. -/
theorem of_released (outlines : Outlines description outline) (shape : node.released = outline) :
    Outlines description node := by
  induction outlines generalizing node with
  | lagrange sameOrder =>
      obtain ⟨leaf, rfl, sameFinite⟩ := LocalNode.of_released_leaf shape
      exact .lagrange (sameFinite ▸ sameOrder)
  | power count _ ih =>
      obtain ⟨children, size, rfl, rfl⟩ := LocalNode.of_released_inner shape
      refine .power (by rwa [List.length_map] at count) (fun child inNode => ?_)
      exact ih _ (List.mem_map_of_mem inNode) rfl
  | composite count _ ih =>
      obtain ⟨children, size, rfl, rfl⟩ := LocalNode.of_released_inner shape
      refine .composite (by rwa [List.length_map] at count) (fun k description child found inNode => ?_)
      exact ih k description child.released found (by rw [List.getElem?_map, inNode]; rfl) rfl

end Outlines

end Description

variable {grid : GridView} {least : Nat} {basis : Basis}

/-- The description of a built basis tells the form of its trees. -/
theorem Built.outlines (built : Built grid least basis) :
    basis.description.Outlines basis.createNode := by
  induction built with
  | lagrange _ => exact .lagrange rfl
  | power merging exponent _ _ ih =>
      refine .power List.length_replicate (fun node inCopies => ?_)
      rwa [List.eq_of_mem_replicate inCopies]
  | @composite blocked members basis created _ ih =>
      cases CompositeBasis.create_eq_ok created
      refine .composite (by rw [List.length_map, List.length_map]) (fun k description node => ?_)
      rw [List.getElem?_map, List.getElem?_map]
      cases found : members.toList[k]? with
      | none => exact nofun
      | some member =>
          rintro ⟨⟩ ⟨⟩
          exact ih member (List.mem_of_getElem? found)
  | tagged _ _ ih => exact ih

/-- The description tells the form of the tree of every view. -/
theorem LocalView.Reached.outlines {view : LocalView} (built : Built grid least basis)
    (reached : LocalView.Reached basis view) : basis.description.Outlines view.tree := by
  obtain ⟨rfl, current⟩ := reached.current built.rebinds
  exact built.outlines.of_released current.shape

theorem LocalView.boundTree_of_element {view : LocalView} {entity : Entity}
    (bound : view.element = some entity) : view.boundTree = .ok view.tree :=
  if_pos (by rw [isBound, bound, Option.isSome_some])

theorem LocalView.of_boundTree_eq_ok {view : LocalView} {tree : LocalNode}
    (bound : view.boundTree = .ok tree) : view.isBound = true ∧ view.tree = tree := by
  unfold boundTree at bound
  split at bound
  · exact ⟨‹_›, Except.ok.inj bound⟩
  · contradiction

namespace Subspace

variable {space inner : Subspace} {path rest : List Nat} {view : LocalView}

theorem create_eq_ok_iff : create basis path = .ok space ↔
    space.root = basis ∧ space.path = path ∧
      basis.description.get? path = some space.description := by
  obtain ⟨root, spacePath, description⟩ := space
  unfold create
  cases basis.description.get? path with
  | none => simp
  | some found =>
      rw [Except.ok.injEq, Subspace.mk.injEq, Option.some.injEq, eq_comm, eq_comm (a := path)]

theorem subspace_eq_ok_iff (created : create basis path = .ok space) :
    space.subspace rest = .ok inner ↔ inner.root = basis ∧ inner.path = path ++ rest ∧
      space.description.get? rest = some inner.description := by
  obtain ⟨rfl, rfl, found⟩ := create_eq_ok_iff.mp created
  rw [subspace, create_eq_ok_iff, Description.get?_append, found, Option.bind_some]

/-- A subspace of a subspace is that at the joined paths. -/
theorem create_append_iff : create basis path >>= (fun space => space.subspace rest) = .ok inner ↔
    create basis (path ++ rest) = .ok inner := by
  rw [bind_eq_ok_iff, create_eq_ok_iff, Description.get?_append, Option.bind_eq_some_iff]
  constructor
  · rintro ⟨space, created, inside⟩
    obtain ⟨root, samePath, described⟩ := (subspace_eq_ok_iff created).mp inside
    exact ⟨root, samePath, space.description, (create_eq_ok_iff.mp created).2.2, described⟩
  · rintro ⟨root, samePath, description, outer, described⟩
    have created : create basis path = .ok ⟨basis, path, description⟩ :=
      create_eq_ok_iff.mpr ⟨rfl, rfl, outer⟩
    exact ⟨_, created, (subspace_eq_ok_iff created).mpr ⟨root, samePath, described⟩⟩

theorem tree_of_bound {tree : LocalNode} (owner : view.basis.tag = space.root.tag)
    (bound : view.boundTree = .ok tree) {node : LocalNode}
    (found : tree.descendant? space.path = some node) : space.tree view = .ok node := by
  rw [Subspace.tree, if_pos owner, bound, ok_bind]
  simp only [found]

/-- The paths of subspaces are those of a tree that the description outlines. -/
theorem exists_create_iff {tree : LocalNode} (outlines : basis.description.Outlines tree) :
    (∃ space, create basis path = .ok space) ↔ ∃ node, tree.descendant? path = some node := by
  constructor
  · rintro ⟨space, created⟩
    obtain ⟨-, -, described⟩ := create_eq_ok_iff.mp created
    obtain ⟨node, found, -⟩ := outlines.exists_descendant described
    exact ⟨node, found⟩
  · rintro ⟨node, found⟩
    obtain ⟨description, described⟩ := outlines.exists_description found
    exact ⟨⟨basis, path, description⟩, create_eq_ok_iff.mpr ⟨rfl, rfl, described⟩⟩

/-- A subspace finds its tree in a bound view of its basis. -/
theorem exists_tree (created : create basis path = .ok space) (owner : view.basis = basis)
    (outlines : basis.description.Outlines view.tree) (bound : view.boundTree = .ok view.tree) :
    ∃ node, view.tree.descendant? path = some node ∧ space.tree view = .ok node ∧
      space.description.Outlines node := by
  obtain ⟨rfl, rfl, described⟩ := create_eq_ok_iff.mp created
  obtain ⟨node, found, outlinesNode⟩ := outlines.exists_descendant described
  exact ⟨node, found, tree_of_bound (congrArg Basis.tag owner) bound found, outlinesNode⟩

end Subspace

/-- On every grid view, and whatever a view of a built basis was bound to, the paths of
subspaces are those of its bound tree.  The description of a subspace fits the node at its
path, so a subspace always finds its tree.  A subspace of a subspace is that at the joined
paths. -/
theorem subspace_paths_are_tree_paths (built : Built grid 0 basis) {view : LocalView}
    (reached : LocalView.Reached basis view) (path : List Nat) :
    (∀ tree, view.boundTree = .ok tree →
      ((∃ space, Subspace.create basis path = .ok space) ↔
        ∃ node, tree.descendant? path = some node) ∧
      ∀ space, Subspace.create basis path = .ok space → ∃ node,
        tree.descendant? path = some node ∧ space.tree view = .ok node ∧
        node.kind = space.description.kind ∧
        node.children.length = space.description.numChildren ∧
        ∀ leaf, node = .leaf leaf → space.description = .lagrange leaf.finite.order) ∧
    (∀ space, Subspace.create basis path = .ok space → view.isBound = false →
      space.tree view = .error .unboundView) ∧
    (∀ rest inner, (Subspace.create basis path >>= fun space => space.subspace rest) = .ok inner ↔
      Subspace.create basis (path ++ rest) = .ok inner) ∧
    ∀ space, Subspace.create basis path = .ok space → ∀ rest inner,
      space.subspace rest = .ok inner ↔ inner.root = basis ∧ inner.path = path ++ rest ∧
        space.description.get? rest = some inner.description := by
  obtain ⟨owner, -⟩ := reached.current built.rebinds
  have outlines := reached.outlines built
  refine ⟨fun tree bound => ?_, fun space created unbound => ?_,
    fun rest inner => Subspace.create_append_iff,
    fun space created rest inner => Subspace.subspace_eq_ok_iff created⟩
  · obtain rfl : view.tree = tree := (LocalView.of_boundTree_eq_ok bound).2
    refine ⟨Subspace.exists_create_iff outlines, fun space created => ?_⟩
    obtain ⟨node, found, foundTree, outlinesNode⟩ :=
      Subspace.exists_tree created owner outlines bound
    refine ⟨node, found, foundTree, outlinesNode.kind_eq, outlinesNode.length_children, ?_⟩
    rintro leaf rfl
    exact outlinesNode.of_leaf
  · rw [Subspace.tree, (Subspace.create_eq_ok_iff.mp created).1, owner, if_pos rfl,
      LocalView.boundTree, unbound]
    rfl

/-- The second component of the velocity of a flow, on the second of two triangles. -/
theorem subspace_paths_are_tree_paths_square : ∃ view space node,
    (LocalView.create Sample.flow.toBasis).bind (Entity.element 1) = .ok view ∧
    Subspace.create Sample.flow.toBasis [0, 1] = .ok space ∧ space.tree view = .ok node ∧
    node.kind = .leaf ∧ (∀ rest inner, space.subspace rest = .ok inner ↔
      inner.root = Sample.flow.toBasis ∧ inner.path = [0, 1] ++ rest ∧
        (Description.lagrange 2).get? rest = some inner.description) := by
  obtain ⟨view, bound⟩ : ∃ view,
      (LocalView.create Sample.flow.toBasis).bind (Entity.element 1) = .ok view := ⟨_, rfl⟩
  have isBound : view.boundTree = .ok view.tree := by
    obtain ⟨-, -, tree, -, rfl⟩ := LocalView.bind_eq_ok_iff.mp bound
    rfl
  obtain ⟨paths, -, -, inside⟩ := subspace_paths_are_tree_paths
    (Sample.flow_built.mono (Nat.zero_le 1)) (.bind .create bound) [0, 1]
  obtain ⟨node, -, found, kind, -⟩ := (paths _ isBound).2 _ rfl
  exact ⟨view, _, node, bound, rfl, found, kind, inside _ rfl⟩

end DofNumbering
