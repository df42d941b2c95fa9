import DofNumbering.Proofs.Local.Moving
import DofNumbering.Proofs.Realization

namespace DofNumbering

/-! Bound trees are one tree, moved.

On an element, a basis binds its tree to a place as the tree that it binds to the
first place, moved there.  The arithmetic of binding grows with the place, so a
tree that can be bound to a place can be bound to every place before it.
-/

/-- The tree of a basis on an element is the given one, moved to where it is bound. -/
structure Basis.Relocates (basis : Basis) (numbering : Numbering) (element : Nat)
    (base : LocalNode) : Prop where
  createNode : basis.createNode.released = basis.createNode
  released : base.released = basis.createNode
  dense : base.Dense element
  size : base.size = numbering.size
  sizeLe : numbering.size ≤ numbering.places
  placesLe : 2 ≤ numbering.places
  /-- Without a leaf, the stride may be zero. -/
  shrinks : ∀ {node bound : LocalNode} {offset stride : Nat}, node.released = basis.createNode →
    basis.bindNode node element offset stride = .ok bound →
    numbering.size < Index.limit ∧ ∀ node' : LocalNode, node'.released = basis.createNode →
      ∀ offset' ≤ offset, ∀ stride' ≤ stride, (0 < stride' ∨ stride' = stride) →
        basis.bindNode node' element offset' stride' = .ok (base.moved offset' stride')
  fits : ∀ (node : LocalNode) {offset stride : Nat}, node.released = basis.createNode →
    0 < stride → numbering.places < Index.limit →
    offset + (numbering.places - 1) * stride < Index.limit →
    basis.bindNode node element offset stride = .ok (base.moved offset stride)

/-- A node at an offset and stride gives child `i` the offset `offset + start i * stride`
and the stride `step i * stride`. -/
structure Placing (place : (offset stride child size : Nat) → Except Fault (Nat × Nat))
    (sizes : List Nat) (start step : Nat → Nat) : Prop where
  shrinks : ∀ {offset stride i result}, i < sizes.length →
    place offset stride i (partOffset sizes i) = .ok result →
    ∀ offset' ≤ offset, ∀ stride' ≤ stride, place offset' stride' i (partOffset sizes i) =
      .ok (offset' + start i * stride', step i * stride')
  fits : ∀ {offset stride i}, i < sizes.length → offset + start i * stride < Index.limit →
    step i * stride < Index.limit → place offset stride i (partOffset sizes i) =
      .ok (offset + start i * stride, step i * stride)

variable {basis : Basis} {numbering : Numbering} {element offset stride : Nat} {sizes : List Nat}

theorem Basis.Relocates.eq_moved {base node bound : LocalNode}
    (relocates : basis.Relocates numbering element base) (shape : node.released = basis.createNode)
    (ran : basis.bindNode node element offset stride = .ok bound) :
    bound = base.moved offset stride := by
  obtain ⟨-, again⟩ := relocates.shrinks shape ran
  have same := again node shape offset (Nat.le_refl _) stride (Nat.le_refl _) (.inr rfl)
  exact Except.ok.inj (ran.symm.trans same)

section Children

variable {place : (child size : Nat) → Except Fault (Nat × Nat)}
  {bind : (child : Nat) → LocalNode → (offset stride : Nat) → Except Fault LocalNode}

theorem of_bindChildren_eq_ok {nodes : List LocalNode} {first before : Nat} {sizes : List Nat}
    {result : List LocalNode × Nat}
    (ran : Basis.bindChildren place bind first before nodes = .ok result)
    (sameLength : nodes.length = sizes.length)
    (sized : ∀ i size, sizes[i]? = some size → ∀ node, nodes[i]? = some node →
      ∀ offset stride bound, bind (first + i) node offset stride = .ok bound → bound.size = size)
    (room : before < Index.limit) :
    before + sizes.sum < Index.limit ∧ ∀ i node, nodes[i]? = some node →
      ∃ offset stride bound, place (first + i) (before + partOffset sizes i) = .ok (offset, stride) ∧
        bind (first + i) node offset stride = .ok bound := by
  induction nodes generalizing first before sizes result with
  | nil =>
      obtain rfl : sizes = [] := List.eq_nil_of_length_eq_zero sameLength.symm
      exact ⟨room, fun i node found => by simp at found⟩
  | cons node rest ih =>
      cases sizes with
      | nil => simp at sameLength
      | cons size sizes =>
          obtain ⟨⟨offset, stride⟩, placed, bindsNode⟩ := bind_eq_ok_iff.mp ran
          obtain ⟨bound, bindsHere, adds⟩ := bind_eq_ok_iff.mp bindsNode
          obtain ⟨next, added, bindsRest⟩ := bind_eq_ok_iff.mp adds
          obtain ⟨others, ranRest, -⟩ := bind_eq_ok_iff.mp bindsRest
          rw [sized 0 size rfl node rfl offset stride bound bindsHere] at added
          obtain ⟨roomNext, rfl⟩ := Index.add_eq_ok_iff.mp added
          obtain ⟨roomRest, each⟩ := @ih (first + 1) (before + size) sizes others ranRest
            (by simpa using sameLength) (fun i size found node foundNode offset stride bound => by
              simpa only [Nat.add_assoc, Nat.add_comm 1] using
                sized (i + 1) size found node foundNode offset stride bound) roomNext
          refine ⟨by rw [List.sum_cons]; omega, fun i node' found => ?_⟩
          cases i with
          | zero =>
              obtain rfl : node = node' := Option.some.inj found
              exact ⟨offset, stride, bound, placed, bindsHere⟩
          | succ i =>
              simpa only [partOffset_cons_succ, Nat.add_assoc, Nat.add_comm 1] using each i node' found

end Children

/-- The children of a basis relocate the parts of its node, which come one after the
other or take turns. -/
structure RelocatesParts (basis : Basis) (numbering : Numbering) (element : Nat) (kind : InnerKind)
    (sizes : List Nat) (part : Nat → Basis) (partNumbering : Nat → Numbering)
    (base : Nat → LocalNode) (start step : Nat → Nat)
    (place : (offset stride child size : Nat) → Except Fault (Nat × Nat))
    (bind : (child : Nat) → LocalNode → (offset stride : Nat) → Except Fault LocalNode) : Prop where
  createNode : basis.createNode =
    .inner kind ((List.range sizes.length).map (fun i => (part i).createNode)) 0
  bindNode : ∀ children size offset stride,
    basis.bindNode (.inner kind children size) element offset stride =
      Basis.bindChildren (place offset stride) bind 0 0 children >>=
        fun result => .ok (.inner kind result.1 result.2)
  bindPart : ∀ i < sizes.length, ∀ node offset stride,
    bind i node offset stride = (part i).bindNode node element offset stride
  placing : Placing place sizes start step
  tiling : Tiling sizes (fun i j => start i + j * step i)
  stepPos : ∀ i < sizes.length, 0 < step i
  relocates : ∀ i < sizes.length, (part i).Relocates (partNumbering i) element (base i)
  sized : ∀ i size, sizes[i]? = some size → (partNumbering i).size = size
  size : numbering.size = sizes.sum
  sizeLe : numbering.size ≤ numbering.places
  placesLe : 2 ≤ numbering.places
  /-- The last place of a part is one of the node. -/
  within : ∀ i < sizes.length,
    start i + ((partNumbering i).places - 1) * step i < numbering.places

namespace RelocatesParts

variable {kind : InnerKind} {sizes : List Nat} {part : Nat → Basis}
  {partNumbering : Nat → Numbering} {partBase : Nat → LocalNode} {start step : Nat → Nat}
  {place : (offset stride child size : Nat) → Except Fault (Nat × Nat)}
  {bind : (child : Nat) → LocalNode → (offset stride : Nat) → Except Fault LocalNode}
  (parts : RelocatesParts basis numbering element kind sizes part partNumbering partBase start step
    place bind)
include parts

theorem exists_children {node : LocalNode} (shape : node.released = basis.createNode) :
    ∃ children size, node = .inner kind children size ∧ children.map LocalNode.released =
      (List.range sizes.length).map (fun i => (part i).createNode) := by
  rw [parts.createNode] at shape
  exact LocalNode.of_released_inner shape

theorem base_size {i size : Nat} (found : sizes[i]? = some size) : (partBase i).size = size := by
  have below := (List.getElem?_eq_some_iff.mp found).1
  rw [(parts.relocates i below).size, parts.sized i size found]

/-- If every part can be bound to its place, so can the node. -/
theorem bindNode_eq_ok {node : LocalNode} (shape : node.released = basis.createNode)
    (placed : ∀ i < sizes.length, place offset stride i (partOffset sizes i) =
      .ok (offset + start i * stride, step i * stride))
    (bound : ∀ i < sizes.length, ∀ child : LocalNode, child.released = (part i).createNode →
      (part i).bindNode child element (offset + start i * stride) (step i * stride) =
        .ok ((partBase i).moved (offset + start i * stride) (step i * stride)))
    (room : numbering.size < Index.limit) :
    basis.bindNode node element offset stride =
      .ok ((LocalNode.assembled kind sizes partBase start step).moved offset stride) := by
  obtain ⟨children, size, rfl, released⟩ := parts.exists_children shape
  have all := bindChildren_released_eq_ok released placed
    (fun i below child childShape => (parts.bindPart i below child _ _).trans
      (bound i below child childShape))
    (fun i size found => LocalNode.size_moved.trans (parts.base_size found)) (parts.size ▸ room)
  rw [parts.bindNode, all, ok_bind, LocalNode.moved_assembled]

theorem shrinks {node bound : LocalNode} (shape : node.released = basis.createNode)
    (ran : basis.bindNode node element offset stride = .ok bound) :
    numbering.size < Index.limit ∧ ∀ node' : LocalNode, node'.released = basis.createNode →
      ∀ offset' ≤ offset, ∀ stride' ≤ stride, (0 < stride' ∨ stride' = stride) →
        basis.bindNode node' element offset' stride' =
          .ok ((LocalNode.assembled kind sizes partBase start step).moved offset' stride') := by
  obtain ⟨children, size, rfl, released⟩ := parts.exists_children shape
  obtain ⟨sameLength, each⟩ := of_map_released released
  rw [parts.bindNode] at ran
  obtain ⟨result, ranChildren, -⟩ := bind_eq_ok_iff.mp ran
  have sized : ∀ i size, sizes[i]? = some size → ∀ child, children[i]? = some child →
      ∀ offset stride bound, bind (0 + i) child offset stride = .ok bound → bound.size = size := by
    intro i size found child foundChild offset stride bound bindsChild
    obtain ⟨below, childShape⟩ := each i child foundChild
    rw [Nat.zero_add, parts.bindPart i below] at bindsChild
    rw [(parts.relocates i below).eq_moved childShape bindsChild, LocalNode.size_moved,
      parts.base_size found]
  obtain ⟨room, bindings⟩ := of_bindChildren_eq_ok ranChildren sameLength sized (by decide)
  rw [Nat.zero_add, ← parts.size] at room
  refine ⟨room, fun node' shape' offset' offsetLe stride' strideLe positive => ?_⟩
  -- the successful binding of a part
  have bindsPart : ∀ i < sizes.length, ∃ child bound, child.released = (part i).createNode ∧
      place offset stride i (partOffset sizes i) = .ok (offset + start i * stride, step i * stride) ∧
      (part i).bindNode child element (offset + start i * stride) (step i * stride) = .ok bound := by
    intro i below
    have foundChild := List.getElem?_eq_getElem (sameLength ▸ below)
    obtain ⟨-, childShape⟩ := each i _ foundChild
    obtain ⟨childOffset, childStride, bound, placed, bindsChild⟩ := bindings i _ foundChild
    rw [Nat.zero_add, Nat.zero_add] at placed
    rw [Nat.zero_add, parts.bindPart i below] at bindsChild
    have same := parts.placing.shrinks below placed offset (Nat.le_refl _) stride (Nat.le_refl _)
    obtain ⟨rfl, rfl⟩ := Prod.mk.inj (Except.ok.inj (placed.symm.trans same))
    exact ⟨_, bound, childShape, placed, bindsChild⟩
  refine parts.bindNode_eq_ok shape' (fun i below => ?_) (fun i below child' childShape' => ?_) room
  · obtain ⟨-, -, -, placed, -⟩ := bindsPart i below
    exact parts.placing.shrinks below placed offset' offsetLe stride' strideLe
  · obtain ⟨child, bound, childShape, -, bindsChild⟩ := bindsPart i below
    obtain ⟨-, again⟩ := (parts.relocates i below).shrinks childShape bindsChild
    have startLe : start i * stride' ≤ start i * stride := Nat.mul_le_mul_left _ strideLe
    refine again child' childShape' _ (by omega) _ (Nat.mul_le_mul_left _ strideLe) ?_
    rcases positive with positive | rfl
    · exact .inl (Nat.mul_pos (parts.stepPos i below) positive)
    · exact .inr rfl

theorem fits {node : LocalNode} (shape : node.released = basis.createNode) (positive : 0 < stride)
    (roomPlaces : numbering.places < Index.limit)
    (room : offset + (numbering.places - 1) * stride < Index.limit) :
    basis.bindNode node element offset stride =
      .ok ((LocalNode.assembled kind sizes partBase start step).moved offset stride) := by
  have last : ∀ i < sizes.length, start i * stride +
      ((partNumbering i).places - 1) * (step i * stride) ≤ (numbering.places - 1) * stride := by
    intro i below
    have within := parts.within i below
    rw [← Nat.mul_assoc, ← Nat.add_mul]
    exact Nat.mul_le_mul_right _ (by omega)
  have steps : ∀ i < sizes.length, step i * stride ≤
      ((partNumbering i).places - 1) * (step i * stride) := by
    intro i below
    have two := (parts.relocates i below).placesLe
    exact Nat.le_mul_of_pos_left _ (by omega)
  refine parts.bindNode_eq_ok shape (fun i below => ?_) (fun i below child childShape => ?_)
    (Nat.lt_of_le_of_lt parts.sizeLe roomPlaces)
  · have lastHere := last i below
    have stepHere := steps i below
    exact parts.placing.fits below (by omega) (by omega)
  · have within := parts.within i below
    have lastHere := last i below
    have placesLe := Nat.le_mul_of_pos_right ((partNumbering i).places - 1) (parts.stepPos i below)
    exact (parts.relocates i below).fits child childShape
      (Nat.mul_pos (parts.stepPos i below) positive) (by omega) (by omega)

theorem relocates_assembled :
    basis.Relocates numbering element (LocalNode.assembled kind sizes partBase start step) where
  createNode := by
    rw [parts.createNode, LocalNode.released, LocalNode.releasedAll_eq_map, List.map_map]
    refine congrArg (fun children => LocalNode.inner kind children 0) ?_
    exact List.map_congr_left (fun i inRange =>
      (parts.relocates i (List.mem_range.mp inRange)).createNode)
  released := by
    rw [parts.createNode, LocalNode.assembled, LocalNode.released, LocalNode.releasedAll_eq_map,
      List.map_map]
    refine congrArg (fun children => LocalNode.inner kind children 0) ?_
    refine List.map_congr_left (fun i inRange => ?_)
    exact LocalNode.released_moved _ |>.trans (parts.relocates i (List.mem_range.mp inRange)).released
  dense := LocalNode.dense_assembled parts.tiling (fun _ _ _ => rfl) parts.stepPos
    (fun _ _ => parts.base_size) (fun i below => (parts.relocates i below).dense)
  size := parts.size.symm
  sizeLe := parts.sizeLe
  placesLe := parts.placesLe
  shrinks := parts.shrinks
  fits _ _ _ := parts.fits

end RelocatesParts

end DofNumbering
