import DofNumbering.Proofs.Local.Moving

namespace DofNumbering

/-! The nodes of a tree, by their paths.

The places of a node are among those of the nodes above it, in the same order.  If no
place belongs to two leaves, nodes whose paths part have no place in common.
-/

namespace LocalNode

variable {node inner inner' child : LocalNode} {path path' : List Nat} {k place : Nat}
  {leaf : LeafNode}

theorem descendant?_cons :
    node.descendant? (k :: path) = node.children[k]?.bind (fun child => child.descendant? path) := by
  rw [descendant?]
  rfl

theorem descendant?_append (node : LocalNode) (path path' : List Nat) :
    node.descendant? (path ++ path') =
      (node.descendant? path).bind (fun inner => inner.descendant? path') := by
  induction path generalizing node with
  | nil => rw [descendant?]; rfl
  | cons k rest ih =>
      rw [List.cons_append, descendant?_cons, descendant?_cons, Option.bind_assoc]
      exact congrArg (node.children[k]?.bind) (funext fun child => ih child)

theorem descendant?_concat (found : node.descendant? path = some inner) :
    node.descendant? (path ++ [k]) = inner.children[k]? := by
  rw [descendant?_append, found, Option.bind_some, descendant?_cons]
  cases inner.children[k]? <;> rfl

theorem of_descendant?_cons (found : node.descendant? (k :: path) = some inner) :
    ∃ child, node.children[k]? = some child ∧ child.descendant? path = some inner :=
  Option.bind_eq_some_iff.mp (descendant?_cons ▸ found)

theorem places_sublist_of_child (found : node.children[k]? = some child) :
    child.places.Sublist node.places := by
  cases node with
  | leaf leaf => simp [children] at found
  | inner kind children size =>
      rw [places_inner]
      exact List.sublist_flatten_of_mem (List.mem_map_of_mem (List.mem_of_getElem? found))

theorem places_sublist (found : node.descendant? path = some inner) :
    inner.places.Sublist node.places := by
  induction path generalizing node with
  | nil => rw [Option.some.inj found]
  | cons k rest ih =>
      obtain ⟨child, foundChild, foundInner⟩ := of_descendant?_cons found
      exact (ih foundInner).trans (places_sublist_of_child foundChild)

/-- A node of a dense tree lists its places. -/
theorem Dense.localIndices_descendant {element : Nat} (dense : node.Dense element)
    (room : node.size < Index.limit) (found : node.descendant? path = some inner) :
    inner.localIndices = .ok inner.places := by
  refine localIndices_eq_ok_iff.mpr ⟨fun place inInner => ?_, rfl⟩
  obtain ⟨j, below, rfl⟩ := (dense.places.2 place).mp ((places_sublist found).subset inInner)
  omega

/-- Different children have no place in common. -/
theorem disjoint_of_children {k' : Nat} {child' : LocalNode} (distinct : node.places.Nodup)
    (found : node.children[k]? = some child) (found' : node.children[k']? = some child')
    (different : k ≠ k') : child.places.Disjoint child'.places := by
  cases node with
  | leaf leaf => simp [children] at found
  | inner kind nodes size =>
      rw [places_inner, List.nodup_flatMap] at distinct
      obtain ⟨below, rfl⟩ := List.getElem?_eq_some_iff.mp found
      obtain ⟨below', rfl⟩ := List.getElem?_eq_some_iff.mp found'
      rcases Nat.lt_or_gt_of_ne different with earlier | later
      · exact List.pairwise_iff_getElem.mp distinct.2 k k' below below' earlier
      · exact List.disjoint_symm (List.pairwise_iff_getElem.mp distinct.2 k' k below' below later)

/-- Nodes have no place in common if neither of their paths begins with the other one. -/
theorem disjoint_of_apart (distinct : node.places.Nodup) (apart : ¬ path <+: path')
    (apart' : ¬ path' <+: path) (found : node.descendant? path = some inner)
    (found' : node.descendant? path' = some inner') :
    inner.places.Disjoint inner'.places := by
  induction path generalizing node path' with
  | nil => exact absurd List.nil_prefix apart
  | cons k rest ih =>
      cases path' with
      | nil => exact absurd List.nil_prefix apart'
      | cons k' rest' =>
          obtain ⟨child, foundChild, foundInner⟩ := of_descendant?_cons found
          obtain ⟨child', foundChild', foundInner'⟩ := of_descendant?_cons found'
          by_cases same : k = k'
          · subst same
            obtain rfl : child = child' := Option.some.inj (foundChild.symm.trans foundChild')
            rw [List.cons_prefix_cons, not_and] at apart apart'
            exact ih (distinct.sublist (places_sublist_of_child foundChild)) (apart rfl) (apart' rfl)
              foundInner foundInner'
          · have parted := disjoint_of_children distinct foundChild foundChild' same
            exact List.disjoint_of_subset_left (places_sublist foundInner).subset
              (List.disjoint_of_subset_right (places_sublist foundInner').subset parted)

mutual

theorem exists_path_of_leaf : (node : LocalNode) → leaf ∈ node.leaves →
    ∃ path, node.descendant? path = some (.leaf leaf)
  | .leaf other, inLeaves => ⟨[], by rw [List.mem_singleton.mp inLeaves, descendant?]⟩
  | .inner kind nodes size, inLeaves => by
      obtain ⟨k, child, foundChild, path, found⟩ := exists_path_of_leafOfAll nodes inLeaves
      exact ⟨k :: path, descendant?_cons.trans (Option.bind_eq_some_iff.mpr ⟨child, foundChild, found⟩)⟩

theorem exists_path_of_leafOfAll : (nodes : List LocalNode) → leaf ∈ leavesOfAll nodes →
    ∃ (k : Nat) (child : LocalNode), nodes[k]? = some child ∧
      ∃ path, child.descendant? path = some (.leaf leaf)
  | [], inLeaves => absurd inLeaves List.not_mem_nil
  | first :: rest, inLeaves => by
      rcases List.mem_append.mp inLeaves with inFirst | inRest
      · exact ⟨0, first, rfl, exists_path_of_leaf first inFirst⟩
      · obtain ⟨k, child, found⟩ := exists_path_of_leafOfAll rest inRest
        exact ⟨k + 1, child, found⟩

end

/-- Every place belongs to a leaf. -/
theorem exists_leaf_of_place (inTree : place ∈ node.places) :
    ∃ path leaf, node.descendant? path = some (.leaf leaf) ∧ place ∈ (LocalNode.leaf leaf).places := by
  obtain ⟨leaf, inLeaves, inLeaf⟩ := List.mem_flatMap.mp inTree
  obtain ⟨path, found⟩ := exists_path_of_leaf node inLeaves
  refine ⟨path, leaf, found, ?_⟩
  rwa [places, leaves, List.flatMap_singleton]

/-- The size of every node counts the shape functions of its leaves. -/
inductive Counted : LocalNode → Prop
  | leaf (node : LeafNode) : Counted (.leaf node)
  | inner {kind : InnerKind} {children : List LocalNode} {size : Nat}
      (counted : ∀ child ∈ children, Counted child)
      (sum : size = (children.map LocalNode.size).sum) : Counted (.inner kind children size)

theorem Counted.length_places (counted : node.Counted) : node.places.length = node.size := by
  induction counted with
  | leaf node => simp [places, leaves, LeafNode.places, size]
  | inner counted sum ih =>
      rw [places_inner, List.length_flatMap, size, sum]
      exact congrArg List.sum (List.map_congr_left ih)

theorem Counted.descendant (counted : node.Counted) (found : node.descendant? path = some inner) :
    inner.Counted := by
  induction path generalizing node with
  | nil => exact Option.some.inj found ▸ counted
  | cons k rest ih =>
      obtain ⟨child, foundChild, foundInner⟩ := of_descendant?_cons found
      refine ih ?_ foundInner
      cases counted with
      | leaf leaf => simp [children] at foundChild
      | inner counted sum => exact counted child (List.mem_of_getElem? foundChild)

end LocalNode

end DofNumbering
