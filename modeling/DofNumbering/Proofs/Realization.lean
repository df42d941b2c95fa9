import DofNumbering.Proofs.Local.Parts

namespace DofNumbering

/-! Built bases produce the indices of their numberings.

On every element the local tree of a basis can be bound to any places that are
indices, and it then writes the indices of the numbering there.  For a power or a
composite this follows from the same for its children.
-/

/-- What a basis does on one element if its numbering is right. -/
structure Basis.Realizes (basis : Basis) (numbering : Numbering) (element : Nat) : Prop where
  createNode : basis.createNode.released = basis.createNode
  sizeNil : basis.size [] = .ok numbering.root
  rootLe : numbering.root ≤ numbering.dofs
  dofsPos : 0 < numbering.dofs
  sizeLe : numbering.size ≤ numbering.places
  /-- The strides of interleaved copies have to be indices, too. -/
  placesLe : 2 ≤ numbering.places
  headed : numbering.Headed element
  bind : ∀ offset stride, 0 < stride → offset + (numbering.places - 1) * stride < Index.limit →
    ∃ bound, basis.Binds numbering element offset stride bound

/-- The sizes of a basis after the stems of a tree are those of the tree. -/
def Basis.SizedBy (basis : Basis) (tree : IndexTree) : Prop :=
  ∀ stem size, tree.size? stem = some size → basis.size stem = .ok size

instance : Nonempty LocalNode := ⟨.unboundPower []⟩

theorem LocalNode.of_released_inner {node : LocalNode} {kind : InnerKind}
    {nodes : List LocalNode} {size : Nat} (shape : node.released = .inner kind nodes size) :
    ∃ children size', node = .inner kind children size' ∧ children.map released = nodes := by
  cases node with
  | leaf leaf => simp [released] at shape
  | inner kind' children size' =>
      rw [released, releasedAll_eq_map] at shape
      cases shape
      exact ⟨children, size', rfl, rfl⟩

theorem LocalNode.of_released_leaf {node : LocalNode} {leaf : LeafNode}
    (shape : node.released = .leaf leaf) :
    ∃ other : LeafNode, node = .leaf other ∧ other.finite = leaf.finite := by
  cases node with
  | leaf other =>
      rw [released] at shape
      cases shape
      exact ⟨other, rfl, rfl⟩
  | inner kind children size => simp [released] at shape

variable {part : Nat → Basis} {numbering : Nat → Numbering} {sizes : List Nat}
  {element offset stride : Nat}

theorem BindsParts.exists_consecutive
    (sized : ∀ i size, sizes[i]? = some size → (numbering i).size = size)
    (realizes : ∀ i < sizes.length, (part i).Realizes (numbering i) element)
    (positive : 0 < stride)
    (room : ∀ i < sizes.length,
      offset + (partOffset sizes i + (numbering i).places - 1) * stride < Index.limit) :
    ∃ bound, BindsParts part numbering sizes (fun i j => partOffset sizes i + j) element offset
      stride (fun i => offset + partOffset sizes i * stride) (fun _ => stride) bound := by
  have each : ∀ i < sizes.length, ∃ bound, (part i).Binds (numbering i) element
      (offset + partOffset sizes i * stride) stride bound := by
    intro i below
    have two := (realizes i below).placesLe
    have enough := room i below
    rw [Nat.add_sub_assoc (by omega), Nat.add_mul, ← Nat.add_assoc] at enough
    exact (realizes i below).bind _ _ positive enough
  choose! bound binds using each
  exact ⟨bound, {
    tiling := tiling_consecutive sizes
    positive
    size := sized
    places := fun i _ j => by rw [Nat.add_mul, Nat.add_assoc]
    childPositive := fun _ _ => positive
    binds }⟩

theorem BindsParts.exists_interleaved {child : Basis} {numbering : Numbering} {count : Nat}
    (realizes : child.Realizes numbering element) (positive : 0 < stride)
    (room : offset + (count * numbering.places - 1) * stride < Index.limit) :
    ∃ bound, BindsParts (fun _ => child) (fun _ => numbering)
      (List.replicate count numbering.size) (fun i j => j * count + i) element offset stride
      (fun i => offset + i * stride) (fun _ => count * stride) bound := by
  have two := realizes.placesLe
  have each : ∀ i < count, ∃ bound, child.Binds numbering element
      (offset + i * stride) (count * stride) bound := by
    intro i below
    have all : (numbering.places - 1) * count + count = count * numbering.places := by
      rw [← Nat.succ_mul, Nat.succ_eq_add_one, Nat.sub_add_cancel (by omega), Nat.mul_comm]
    have last : ((numbering.places - 1) * count + i) * stride ≤
        (count * numbering.places - 1) * stride := Nat.mul_le_mul_right _ (by omega)
    rw [Nat.add_mul, Nat.mul_assoc] at last
    exact realizes.bind _ _ (Nat.mul_pos (by omega) positive) (by omega)
  choose! bound binds using each
  exact ⟨bound, {
    tiling := tiling_interleaved count numbering.size
    positive
    size := fun _ _ found => (part_of_replicate found).2
    places := fun i _ j => by rw [Nat.add_mul, Nat.mul_assoc]; omega
    childPositive := fun i below =>
      Nat.mul_pos (by rw [List.length_replicate] at below; omega) positive
    binds := fun i below => binds i (by rwa [List.length_replicate] at below) }⟩

end DofNumbering
