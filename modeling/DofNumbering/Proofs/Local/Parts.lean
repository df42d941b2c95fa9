import DofNumbering.Proofs.Local.Binding
import DofNumbering.Proofs.Numbering

namespace DofNumbering

/-! The children of a node, bound to an element.

Each child is bound to its part of the places of the node.  If the children do
what their numberings say, the node lists its places and fills them.
-/

/-- A tree that a basis binds to an element, with the local index
`offset + j * stride` for the degree of freedom `j`. -/
structure Basis.Binds (basis : Basis) (numbering : Numbering) (element offset stride : Nat)
    (bound : LocalNode) : Prop where
  bindNode : ∀ node : LocalNode, node.released = basis.createNode →
    basis.bindNode node element offset stride = .ok bound
  released : bound.released = basis.createNode
  size : bound.size = numbering.size
  listed : ∃ places, bound.localIndices = .ok places ∧
    Enumerates places offset stride numbering.size
  fills : Fills (basis.indices bound) offset stride numbering.size (numbering.index element)

/-- The trees of the children of a node, each bound to its part of the node. -/
structure BindsParts (part : Nat → Basis) (numbering : Nat → Numbering) (sizes : List Nat)
    (slot : Nat → Nat → Nat) (element offset stride : Nat) (childOffset childStride : Nat → Nat)
    (bound : Nat → LocalNode) : Prop where
  tiling : Tiling sizes slot
  positive : 0 < stride
  size : ∀ i size, sizes[i]? = some size → (numbering i).size = size
  places : ∀ i < sizes.length, ∀ j,
    childOffset i + j * childStride i = offset + slot i j * stride
  childPositive : ∀ i < sizes.length, 0 < childStride i
  binds : ∀ i < sizes.length,
    (part i).Binds (numbering i) element (childOffset i) (childStride i) (bound i)

theorem of_getElem?_map_range {α : Type} {value : Nat → α} {count i : Nat} {item : α}
    (found : ((List.range count).map value)[i]? = some item) : i < count ∧ value i = item := by
  simpa [List.getElem?_eq_some_iff] using found

namespace BindsParts

variable {part : Nat → Basis} {numbering : Nat → Numbering} {sizes : List Nat}
  {slot : Nat → Nat → Nat} {element offset stride : Nat} {childOffset childStride : Nat → Nat}
  {bound : Nat → LocalNode}

theorem listed (parts : BindsParts part numbering sizes slot element offset stride childOffset
      childStride bound) (kind : InnerKind) :
    ∃ places,
      (LocalNode.inner kind ((List.range sizes.length).map bound) sizes.sum).localIndices =
        .ok places ∧ Enumerates places offset stride sizes.sum := by
  have each := fun i below => (parts.binds i below).listed
  choose! listed listedEq enumerated using each
  refine ⟨(List.range sizes.length).flatMap listed, ?_, ?_⟩
  · rw [LocalNode.localIndices_inner listed]
    · simp
    · intro i child found
      obtain ⟨below, rfl⟩ := of_getElem?_map_range found
      exact listedEq i below
  · refine enumerates_flatMap parts.tiling parts.positive parts.places (fun i size found => ?_)
    have := enumerated i (List.getElem?_eq_some_iff.mp found).1
    rwa [parts.size i size found] at this

/-- The node fills its places if every child's indices become indices of the node
at the slots of the child. -/
theorem fills (parts : BindsParts part numbering sizes slot element offset stride childOffset
      childStride bound)
    {write : (child : Nat) → LocalNode → Change Buffer Unit}
    {merge : (child : Nat) → Except Fault (MultiIndex → Except Fault MultiIndex)}
    {index : Nat → MultiIndex}
    (writes : ∀ i < sizes.length, write i (bound i) = (part i).indices (bound i))
    (merges : ∀ i < sizes.length, ∃ change, merge i = .ok change ∧
      ∀ j < (numbering i).size,
        change ((numbering i).index element j) = .ok (index (slot i j))) :
    Fills (Basis.writeChildren write merge 0 ((List.range sizes.length).map bound))
      offset stride sizes.sum index := by
  refine writeChildren_fills parts.tiling (by simp) parts.positive parts.places ?_
  intro i node size found foundSize
  obtain ⟨below, rfl⟩ := of_getElem?_map_range found
  have binds := parts.binds i below
  obtain ⟨change, merged, changes⟩ := merges i below
  obtain ⟨places, listed, enumerated⟩ := binds.listed
  have fills := binds.fills
  rw [parts.size i size foundSize] at changes enumerated fills
  rw [writes i below]
  exact writeChild_fills (parts.childPositive i below) fills merged listed enumerated changes

theorem released (parts : BindsParts part numbering sizes slot element offset stride childOffset
      childStride bound) (kind : InnerKind) :
    (LocalNode.inner kind ((List.range sizes.length).map bound) sizes.sum).released =
      .inner kind ((List.range sizes.length).map (fun i => (part i).createNode)) 0 := by
  rw [LocalNode.released, LocalNode.releasedAll_eq_map, List.map_map]
  congr 1
  refine List.map_congr_left (fun i member => ?_)
  exact (parts.binds i (List.mem_range.mp member)).released

theorem bindChildren (parts : BindsParts part numbering sizes slot element offset stride
      childOffset childStride bound)
    {place : (child size : Nat) → Except Fault (Nat × Nat)}
    {bind : (child : Nat) → LocalNode → (offset stride : Nat) → Except Fault LocalNode}
    {nodes : List LocalNode}
    (shape : nodes.map LocalNode.released =
      (List.range sizes.length).map (fun i => (part i).createNode))
    (placed : ∀ i < sizes.length,
      place i (partOffset sizes i) = .ok (childOffset i, childStride i))
    (bindsPart : ∀ i < sizes.length, ∀ node, bind i node (childOffset i) (childStride i) =
      (part i).bindNode node element (childOffset i) (childStride i))
    (room : sizes.sum < Index.limit) :
    Basis.bindChildren place bind 0 0 nodes =
      .ok ((List.range sizes.length).map bound, sizes.sum) := by
  refine bindChildren_released_eq_ok shape placed (fun i below node sameShape => ?_)
    (fun i size found => ?_) room
  · rw [bindsPart i below]
    exact (parts.binds i below).bindNode node sameShape
  · rw [(parts.binds i (List.getElem?_eq_some_iff.mp found).1).size, parts.size i size found]

end BindsParts

end DofNumbering
