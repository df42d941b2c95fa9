import DofNumbering.Proofs.Local.Writing
import DofNumbering.Proofs.Result
import Mathlib.Data.List.Nodup

namespace DofNumbering

/-! Binding a tree to an element.

Binding overwrites whatever an earlier binding has set, so its result depends on
the shape of the tree only.  The children of a node are bound one after the other
to places that tile those of the node.
-/

/-- Lists of the places of the children make up one of the places of the node. -/
theorem enumerates_flatMap {sizes : List Nat} {slot : Nat → Nat → Nat} {offset stride : Nat}
    {childOffset childStride : Nat → Nat} {listed : Nat → List Nat}
    (tiling : Tiling sizes slot) (positive : 0 < stride)
    (places : ∀ i < sizes.length, ∀ j,
      childOffset i + j * childStride i = offset + slot i j * stride)
    (each : ∀ i size, sizes[i]? = some size →
      Enumerates (listed i) (childOffset i) (childStride i) size) :
    Enumerates ((List.range sizes.length).flatMap listed) offset stride sizes.sum := by
  have member : ∀ i < sizes.length, ∀ place, place ∈ listed i ↔
      ∃ size j, sizes[i]? = some size ∧ j < size ∧ place = offset + slot i j * stride := by
    intro i below place
    have found := List.getElem?_eq_getElem below
    rw [(each i _ found).2, found]
    simp [places i below]
  have sameSlot : ∀ {m m' : Nat}, offset + m * stride = offset + m' * stride → m = m' :=
    fun equal => Nat.eq_of_mul_eq_mul_right positive (Nat.add_left_cancel equal)
  refine ⟨List.nodup_flatMap.mpr ⟨?_, ?_⟩, ?_⟩
  · intro i below
    exact (each i _ (List.getElem?_eq_getElem (List.mem_range.mp below))).1
  · refine List.nodup_range.imp_of_mem (fun {i i'} below below' different => ?_)
    intro place inFirst inSecond
    obtain ⟨_, j, found, within, rfl⟩ := (member i (List.mem_range.mp below) place).mp inFirst
    obtain ⟨_, j', found', within', equal⟩ :=
      (member i' (List.mem_range.mp below') _).mp inSecond
    exact different (tiling.injective found within found' within' (sameSlot equal)).1
  · intro place
    simp only [List.mem_flatMap, List.mem_range]
    constructor
    · rintro ⟨i, below, inPart⟩
      obtain ⟨size, j, found, within, rfl⟩ := (member i below place).mp inPart
      exact ⟨_, tiling.lt_sum found within, rfl⟩
    · rintro ⟨m, below, rfl⟩
      obtain ⟨i, size, j, found, within, rfl⟩ := tiling.onto below
      have inRange := (List.getElem?_eq_some_iff.mp found).1
      exact ⟨i, inRange, (member i inRange _).mpr ⟨size, j, found, within, rfl⟩⟩

namespace LeafNode

variable {leaf : LeafNode}

theorem localIndex_eq_ok {j : Nat} (below : j < leaf.size)
    (room : leaf.offset + (leaf.size - 1) * leaf.stride < Index.limit) :
    leaf.localIndex j = .ok (leaf.offset + j * leaf.stride) := by
  have le : j * leaf.stride ≤ (leaf.size - 1) * leaf.stride := Nat.mul_le_mul_right _ (by omega)
  rw [localIndex, if_pos below, Index.mul, if_pos (by omega)]
  exact if_pos (by omega)

theorem localIndices_eq_ok (room : leaf.offset + (leaf.size - 1) * leaf.stride < Index.limit) :
    leaf.localIndices =
      .ok ((List.range leaf.size).map (fun j => leaf.offset + j * leaf.stride)) :=
  Index.collect_eq_ok (fun _ below => localIndex_eq_ok below room)

theorem enumerates_localIndices (positive : 0 < leaf.stride) :
    Enumerates ((List.range leaf.size).map (fun j => leaf.offset + j * leaf.stride))
      leaf.offset leaf.stride leaf.size := by
  refine ⟨List.nodup_range.map_on ?_, ?_⟩
  · intro j _ j' _ equal
    exact Nat.eq_of_mul_eq_mul_right positive (Nat.add_left_cancel equal)
  · intro place
    simp [eq_comm]

end LeafNode

namespace LocalNode

mutual

/-- The tree without what binding has set. -/
def released : LocalNode → LocalNode
  | .leaf node => .leaf (.unbound node.finite)
  | .inner kind children _ => .inner kind (releasedAll children) 0

def releasedAll : List LocalNode → List LocalNode
  | [] => []
  | child :: rest => child.released :: releasedAll rest

end

theorem releasedAll_eq_map (children : List LocalNode) :
    releasedAll children = children.map released := by
  induction children with
  | nil => rfl
  | cons child rest ih => rw [releasedAll, ih, List.map_cons]

/-- Trees of the same shape are leaves for the same element, or inner nodes of the same kind
whose children have the same shapes. -/
theorem cases_of_released_eq {node node' : LocalNode} (same : node.released = node'.released) :
    (∃ leaf leaf', node = .leaf leaf ∧ node' = .leaf leaf' ∧ leaf.finite = leaf'.finite) ∨
    ∃ kind children children' size size', node = .inner kind children size ∧
      node' = .inner kind children' size' ∧ children.map released = children'.map released := by
  cases node with
  | leaf leaf =>
      cases node' with
      | leaf leaf' =>
          simp only [released, LeafNode.unbound, LocalNode.leaf.injEq, LeafNode.mk.injEq] at same
          exact .inl ⟨leaf, leaf', rfl, rfl, same.1⟩
      | inner kind children size => simp [released] at same
  | inner kind children size =>
      cases node' with
      | leaf leaf' => simp [released] at same
      | inner kind' children' size' =>
          simp only [released, releasedAll_eq_map, LocalNode.inner.injEq] at same
          obtain ⟨rfl, sameChildren, -⟩ := same
          exact .inr ⟨kind, children, children', size, size', rfl, rfl, sameChildren⟩

theorem localIndicesOf_append {left right : List LeafNode} {places places' : List Nat}
    (listed : localIndicesOf left = .ok places) (listed' : localIndicesOf right = .ok places') :
    localIndicesOf (left ++ right) = .ok (places ++ places') := by
  induction left generalizing places with
  | nil =>
      cases listed
      exact listed'
  | cons leaf rest ih =>
      obtain ⟨here, listedHere, done⟩ := bind_eq_ok_iff.mp listed
      obtain ⟨others, listedOthers, equal⟩ := bind_eq_ok_iff.mp done
      cases equal
      rw [List.cons_append, localIndicesOf, listedHere, ok_bind, ih listedOthers, ok_bind,
        List.append_assoc]

theorem localIndices_inner {kind : InnerKind} {children : List LocalNode} {size : Nat}
    (listed : Nat → List Nat)
    (each : ∀ i (child : LocalNode), children[i]? = some child →
      child.localIndices = .ok (listed i)) :
    (inner kind children size).localIndices =
      .ok ((List.range children.length).flatMap listed) := by
  rw [localIndices, leaves]
  induction children generalizing listed with
  | nil => rfl
  | cons child rest ih =>
      have others := ih (fun i => listed (i + 1)) (fun i => each (i + 1))
      rw [leavesOfAll, localIndicesOf_append (each 0 child rfl) others, List.length_cons,
        List.range_succ_eq_map, List.flatMap_cons, List.flatMap_map]

end LocalNode

section Children

variable {place : (child size : Nat) → Except Fault (Nat × Nat)}
  {bind : (child : Nat) → LocalNode → (offset stride : Nat) → Except Fault LocalNode}

theorem bindChildren_eq_ok {nodes : List LocalNode} {first before : Nat} {sizes : List Nat}
    (offset stride : Nat → Nat) (bound : Nat → LocalNode)
    (sameLength : nodes.length = sizes.length)
    (placed : ∀ i < sizes.length,
      place (first + i) (before + partOffset sizes i) = .ok (offset i, stride i))
    (binds : ∀ i node, nodes[i]? = some node →
      bind (first + i) node (offset i) (stride i) = .ok (bound i))
    (boundSize : ∀ i size, sizes[i]? = some size → (bound i).size = size)
    (room : before + sizes.sum < Index.limit) :
    Basis.bindChildren place bind first before nodes =
      .ok ((List.range sizes.length).map bound, before + sizes.sum) := by
  induction nodes generalizing first before sizes offset stride bound with
  | nil =>
      obtain rfl : sizes = [] := List.eq_nil_of_length_eq_zero sameLength.symm
      rfl
  | cons node rest ih =>
      cases sizes with
      | nil => simp at sameLength
      | cons size sizes =>
          rw [List.sum_cons] at room
          have others := @ih (first + 1) (before + size) sizes (fun i => offset (i + 1))
            (fun i => stride (i + 1)) (fun i => bound (i + 1)) (by simpa using sameLength)
            (by
              intro i below
              simpa only [partOffset_cons_succ, Nat.add_assoc, Nat.add_comm 1] using
                placed (i + 1) (by simpa using below))
            (by
              intro i node' found
              simpa only [Nat.add_assoc, Nat.add_comm 1] using binds (i + 1) node' found)
            (fun i size' found => boundSize (i + 1) size' found) (by omega)
          have placedHere : place first before = .ok (offset 0, stride 0) :=
            placed 0 (by simp)
          have boundHere : bind first node (offset 0) (stride 0) = .ok (bound 0) :=
            binds 0 node rfl
          rw [Basis.bindChildren, placedHere, ok_bind]
          simp only [boundHere, ok_bind, boundSize 0 size rfl, Index.add,
            if_pos (show before + size < Index.limit by omega), others]
          simp [List.range_succ_eq_map, Nat.add_assoc, Function.comp_def]

theorem of_map_released {nodes : List LocalNode} {shape : Nat → LocalNode} {count : Nat}
    (released : nodes.map LocalNode.released = (List.range count).map shape) :
    nodes.length = count ∧
      ∀ i node, nodes[i]? = some node → i < count ∧ node.released = shape i := by
  have sameLength : nodes.length = count := by simpa using congrArg List.length released
  refine ⟨sameLength, fun i node found => ?_⟩
  have below : i < count := sameLength ▸ (List.getElem?_eq_some_iff.mp found).1
  exact ⟨below, by simpa [found, below] using congrArg (·[i]?) released⟩

/-- Children of the right shapes are bound to their places, whatever they were bound to. -/
theorem bindChildren_released_eq_ok {nodes : List LocalNode} {sizes : List Nat}
    {shape : Nat → LocalNode} {offset stride : Nat → Nat} {bound : Nat → LocalNode}
    (released : nodes.map LocalNode.released = (List.range sizes.length).map shape)
    (placed : ∀ i < sizes.length, place i (partOffset sizes i) = .ok (offset i, stride i))
    (binds : ∀ i < sizes.length, ∀ node : LocalNode, node.released = shape i →
      bind i node (offset i) (stride i) = .ok (bound i))
    (boundSize : ∀ i size, sizes[i]? = some size → (bound i).size = size)
    (room : sizes.sum < Index.limit) :
    Basis.bindChildren place bind 0 0 nodes =
      .ok ((List.range sizes.length).map bound, sizes.sum) := by
  obtain ⟨sameLength, each⟩ := of_map_released released
  have all := @bindChildren_eq_ok place bind nodes 0 0 sizes offset stride bound sameLength
    (by simpa only [Nat.zero_add] using placed)
    (fun i node found => by
      obtain ⟨below, sameShape⟩ := each i node found
      rw [Nat.zero_add]
      exact binds i below node sameShape)
    boundSize (by rwa [Nat.zero_add])
  rwa [Nat.zero_add] at all

/-- Where children are bound depends on their shapes only, also if binding fails. -/
theorem bindChildren_congr {nodes nodes' : List LocalNode}
    (same : nodes.map LocalNode.released = nodes'.map LocalNode.released)
    (binds : ∀ child (node node' : LocalNode) offset stride, node.released = node'.released →
      bind child node offset stride = bind child node' offset stride) (first before : Nat) :
    Basis.bindChildren place bind first before nodes =
      Basis.bindChildren place bind first before nodes' := by
  induction nodes generalizing nodes' first before with
  | nil =>
      obtain rfl : nodes' = [] := List.map_eq_nil_iff.mp same.symm
      rfl
  | cons node rest ih =>
      cases nodes' with
      | nil => simp at same
      | cons node' rest' =>
          obtain ⟨sameNode, sameRest⟩ := List.cons.inj same
          simp only [Basis.bindChildren, binds _ _ _ _ _ sameNode, ih sameRest]

end Children

end DofNumbering
