import DofNumbering.Proofs.Local.Binding

namespace DofNumbering

/-! Trees at other places.

Moving a tree takes its place `i` to `offset + i * stride`.  A tree is dense if its
places are the numbers below its size.  The children of a node are dense trees that
are moved so that their places tile those of the node.
-/

theorem Index.of_collectOnto_eq_ok {ε α : Type} {value : Nat → Except ε α} {first count : Nat}
    {values result : List α} (collected : collectOnto value first count values = .ok result) :
    ∀ i < count, ∃ item, value (first + i) = .ok item := by
  induction count generalizing first values with
  | zero => exact fun i below => absurd below (Nat.not_lt_zero i)
  | succ count ih =>
      obtain ⟨item, found, rest⟩ := bind_eq_ok_iff.mp collected
      intro i below
      cases i with
      | zero => exact ⟨item, found⟩
      | succ i =>
          obtain ⟨later, foundLater⟩ := ih rest i (Nat.lt_of_succ_lt_succ below)
          exact ⟨later, by rwa [Nat.add_assoc, Nat.add_comm 1] at foundLater⟩

theorem Index.collect_eq_ok_iff {ε α : Type} {value : Nat → Except ε α} {number : Nat → α}
    {count : Nat} {result : List α}
    (agree : ∀ i < count, ∀ item, value i = .ok item → item = number i) :
    collect value 0 count = .ok result ↔
      (∀ i < count, value i = .ok (number i)) ∧ result = (List.range count).map number := by
  constructor
  · intro collected
    obtain ⟨items, onto, -⟩ := bind_eq_ok_iff.mp collected
    have each : ∀ i < count, value i = .ok (number i) := by
      intro i below
      obtain ⟨item, found⟩ := of_collectOnto_eq_ok onto i below
      rw [Nat.zero_add] at found
      rw [found, agree i below item found]
    exact ⟨each, Except.ok.inj (collected.symm.trans (collect_eq_ok each))⟩
  · rintro ⟨each, rfl⟩
    exact collect_eq_ok each

namespace LeafNode

variable {leaf : LeafNode} {offset stride offset' stride' : Nat} {indices : List Nat}

/-- The places of the shape functions, whether these are indices or not. -/
def places (leaf : LeafNode) : List Nat :=
  (List.range leaf.size).map (fun j => leaf.offset + j * leaf.stride)

def moved (offset stride : Nat) (leaf : LeafNode) : LeafNode :=
  { leaf with offset := offset + leaf.offset * stride, stride := leaf.stride * stride }

theorem places_moved :
    (leaf.moved offset stride).places = leaf.places.map (fun place => offset + place * stride) := by
  rw [places, places, List.map_map]
  refine List.map_congr_left (fun j _ => ?_)
  simp only [moved, Function.comp_apply, Nat.add_mul, Nat.mul_assoc, Nat.add_assoc]

theorem moved_first : leaf.moved 0 1 = leaf := by
  simp only [moved, Nat.mul_one, Nat.zero_add]

theorem moved_moved : (leaf.moved offset stride).moved offset' stride' =
    leaf.moved (offset' + offset * stride') (stride * stride') := by
  simp only [moved, Nat.add_mul, Nat.mul_assoc, Nat.add_assoc]

theorem localIndex_eq_ok_iff {j index : Nat} : leaf.localIndex j = .ok index ↔
    j < leaf.size ∧ leaf.offset + j * leaf.stride < Index.limit ∧
      index = leaf.offset + j * leaf.stride := by
  unfold localIndex
  split
  · rename_i below
    rw [bind_eq_ok_iff]
    constructor
    · rintro ⟨distance, product, sum⟩
      obtain ⟨-, rfl⟩ := Index.mul_eq_ok_iff.mp product
      exact ⟨below, Index.add_eq_ok_iff.mp sum⟩
    · rintro ⟨-, room, rfl⟩
      have product : j * leaf.stride < Index.limit := by omega
      exact ⟨_, if_pos product, if_pos room⟩
  · rename_i outside
    exact ⟨nofun, fun inLeaf => absurd inLeaf.1 outside⟩

theorem localIndices_eq_ok_iff : leaf.localIndices = .ok indices ↔
    (∀ place ∈ leaf.places, place < Index.limit) ∧ indices = leaf.places := by
  have agree : ∀ j < leaf.size, ∀ index, leaf.localIndex j = .ok index →
      index = leaf.offset + j * leaf.stride :=
    fun _ _ _ found => (localIndex_eq_ok_iff.mp found).2.2
  rw [localIndices, Index.collect_eq_ok_iff agree, places, List.forall_mem_map]
  refine and_congr_left (fun _ => forall_congr' (fun j => ?_))
  rw [List.mem_range, localIndex_eq_ok_iff]
  exact ⟨fun found below => (found below).2.1, fun room below => ⟨below, room below, rfl⟩⟩

end LeafNode

namespace LocalNode

variable {node : LocalNode} {children : List LocalNode} {kind : InnerKind}
  {offset stride offset' stride' element size : Nat} {indices : List Nat}

mutual

/-- The tree with place `offset + i * stride` instead of place `i`. -/
def moved (offset stride : Nat) : LocalNode → LocalNode
  | .leaf node => .leaf (node.moved offset stride)
  | .inner kind children size => .inner kind (movedAll offset stride children) size

def movedAll (offset stride : Nat) : List LocalNode → List LocalNode
  | [] => []
  | child :: rest => child.moved offset stride :: movedAll offset stride rest

end

theorem movedAll_eq_map (children : List LocalNode) :
    movedAll offset stride children = children.map (moved offset stride) := by
  induction children with
  | nil => rfl
  | cons child rest ih => rw [movedAll, ih, List.map_cons]

@[simp] theorem size_moved : (node.moved offset stride).size = node.size := by
  cases node with
  | leaf leaf => rfl
  | inner kind children size => rfl

mutual

theorem leaves_moved : (node : LocalNode) →
    (node.moved offset stride).leaves = node.leaves.map (LeafNode.moved offset stride)
  | .leaf _ => rfl
  | .inner _ children _ => leavesOfAll_moved children

theorem leavesOfAll_moved : (children : List LocalNode) →
    leavesOfAll (movedAll offset stride children) =
      (leavesOfAll children).map (LeafNode.moved offset stride)
  | [] => rfl
  | child :: rest => by
      rw [movedAll, leavesOfAll, leavesOfAll, leaves_moved child, leavesOfAll_moved rest,
        List.map_append]

end

mutual

theorem released_moved : (node : LocalNode) → (node.moved offset stride).released = node.released
  | .leaf _ => rfl
  | .inner kind children size => by rw [moved, released, released, releasedAll_moved children]

theorem releasedAll_moved : (children : List LocalNode) →
    releasedAll (movedAll offset stride children) = releasedAll children
  | [] => rfl
  | child :: rest => by
      rw [movedAll, releasedAll, releasedAll, released_moved child, releasedAll_moved rest]

end

mutual

theorem moved_first : (node : LocalNode) → node.moved 0 1 = node
  | .leaf _ => congrArg LocalNode.leaf LeafNode.moved_first
  | .inner kind children size => by rw [moved, movedAll_first children]

theorem movedAll_first : (children : List LocalNode) → movedAll 0 1 children = children
  | [] => rfl
  | child :: rest => by rw [movedAll, moved_first child, movedAll_first rest]

end

mutual

theorem moved_moved : (node : LocalNode) → (node.moved offset stride).moved offset' stride' =
    node.moved (offset' + offset * stride') (stride * stride')
  | .leaf _ => congrArg LocalNode.leaf LeafNode.moved_moved
  | .inner kind children size => by rw [moved, moved, moved, movedAll_movedAll children]

theorem movedAll_movedAll : (children : List LocalNode) →
    movedAll offset' stride' (movedAll offset stride children) =
      movedAll (offset' + offset * stride') (stride * stride') children
  | [] => rfl
  | child :: rest => by
      rw [movedAll, movedAll, movedAll, moved_moved child, movedAll_movedAll rest]

end

/-- The places of the shape functions of all leaves, one leaf after the other. -/
def places (node : LocalNode) : List Nat := node.leaves.flatMap LeafNode.places

theorem places_moved :
    (node.moved offset stride).places = node.places.map (fun place => offset + place * stride) := by
  rw [places, places, leaves_moved, List.flatMap_map, List.map_flatMap]
  simp only [LeafNode.places_moved]

theorem leavesOfAll_eq_flatMap (children : List LocalNode) :
    leavesOfAll children = children.flatMap leaves := by
  induction children with
  | nil => rfl
  | cons child rest ih => rw [leavesOfAll, ih, List.flatMap_cons]

theorem leaves_inner : (inner kind children size).leaves = children.flatMap leaves :=
  leavesOfAll_eq_flatMap children

theorem places_inner : (inner kind children size).places = children.flatMap places := by
  rw [places, leaves_inner, List.flatMap_assoc]
  rfl

theorem localIndicesOf_eq_ok_iff {leaves : List LeafNode} : localIndicesOf leaves = .ok indices ↔
    (∀ place ∈ leaves.flatMap LeafNode.places, place < Index.limit) ∧
      indices = leaves.flatMap LeafNode.places := by
  induction leaves generalizing indices with
  | nil => simp [localIndicesOf, eq_comm]
  | cons leaf rest ih =>
      rw [localIndicesOf, bind_eq_ok_iff, List.flatMap_cons, List.forall_mem_append]
      constructor
      · rintro ⟨here, listed, done⟩
        obtain ⟨others, listedRest, equal⟩ := bind_eq_ok_iff.mp done
        obtain ⟨room, rfl⟩ := LeafNode.localIndices_eq_ok_iff.mp listed
        obtain ⟨roomRest, rfl⟩ := ih.mp listedRest
        exact ⟨⟨room, roomRest⟩, (Except.ok.inj equal).symm⟩
      · rintro ⟨⟨room, roomRest⟩, rfl⟩
        refine ⟨_, LeafNode.localIndices_eq_ok_iff.mpr ⟨room, rfl⟩, ?_⟩
        rw [ih.mpr ⟨roomRest, rfl⟩, ok_bind]

/-- A tree can list its places if all of them are indices. -/
theorem localIndices_eq_ok_iff : node.localIndices = .ok indices ↔
    (∀ place ∈ node.places, place < Index.limit) ∧ indices = node.places :=
  localIndicesOf_eq_ok_iff

/-- The leaves make up the tree and share its element, and the places are the numbers
below the size. -/
structure Dense (node : LocalNode) (element : Nat) : Prop where
  size : node.size = (node.leaves.map LeafNode.size).sum
  element : ∀ leaf ∈ node.leaves, leaf.element = element
  places : Enumerates node.places 0 1 node.size

theorem dense_leaf (finite : LagrangeElement) (element : Nat) :
    (leaf ⟨finite, element, 0, 1⟩).Dense element where
  size := (Nat.add_zero _).symm
  element other inLeaves := by
    obtain rfl := List.mem_singleton.mp inLeaves
    rfl
  places := by
    have listed := @LeafNode.enumerates_localIndices ⟨finite, element, 0, 1⟩ Nat.one_pos
    rw [places, leaves, List.flatMap_singleton]
    exact listed

theorem enumerates_moved {places : List Nat} (positive : 0 < stride)
    (enumerated : Enumerates places 0 1 size) :
    Enumerates (places.map (fun place => offset + place * stride)) offset stride size := by
  refine ⟨enumerated.1.map (fun place place' equal => ?_), fun place => ?_⟩
  · exact Nat.eq_of_mul_eq_mul_right positive (Nat.add_left_cancel equal)
  · rw [List.mem_map]
    constructor
    · rintro ⟨i, listed, rfl⟩
      obtain ⟨j, below, rfl⟩ := (enumerated.2 i).mp listed
      exact ⟨j, below, by rw [Nat.zero_add, Nat.mul_one]⟩
    · rintro ⟨j, below, rfl⟩
      exact ⟨j, (enumerated.2 j).mpr ⟨j, below, by rw [Nat.zero_add, Nat.mul_one]⟩, rfl⟩

theorem perm_range_of_enumerates {places : List Nat} (enumerated : Enumerates places 0 1 size) :
    places.Perm (List.range size) := by
  refine (List.perm_ext_iff_of_nodup enumerated.1 List.nodup_range).mpr (fun place => ?_)
  rw [enumerated.2, List.mem_range]
  simp

namespace Dense

theorem localIndices_eq_ok (dense : node.Dense element) (room : node.size < Index.limit) :
    node.localIndices = .ok node.places := by
  refine LocalNode.localIndices_eq_ok_iff.mpr ⟨fun place inTree => ?_, rfl⟩
  obtain ⟨j, below, rfl⟩ := (dense.places.2 place).mp inTree
  omega

end Dense

section Inner

variable {sizes : List Nat} {slot : Nat → Nat → Nat} {base : Nat → LocalNode} {start step : Nat → Nat}

/-- The node with dense children that are moved to their parts. -/
def assembled (kind : InnerKind) (sizes : List Nat) (base : Nat → LocalNode)
    (start step : Nat → Nat) : LocalNode :=
  .inner kind ((List.range sizes.length).map (fun i => (base i).moved (start i) (step i))) sizes.sum

theorem moved_assembled : (assembled kind sizes base start step).moved offset stride =
    .inner kind ((List.range sizes.length).map (fun i =>
      (base i).moved (offset + start i * stride) (step i * stride))) sizes.sum := by
  rw [assembled, moved, movedAll_eq_map, List.map_map]
  simp only [Function.comp_def, moved_moved]

theorem map_range_size (sized : ∀ i size, sizes[i]? = some size → (base i).size = size) :
    (List.range sizes.length).map (fun i => (base i).size) = sizes := by
  refine List.ext_getElem (by simp) (fun i below below' => ?_)
  rw [List.getElem_map, List.getElem_range, sized i _ (List.getElem?_eq_getElem below')]

theorem dense_assembled (tiling : Tiling sizes slot)
    (slots : ∀ i < sizes.length, ∀ j, start i + j * step i = slot i j)
    (stepPos : ∀ i < sizes.length, 0 < step i)
    (sized : ∀ i size, sizes[i]? = some size → (base i).size = size)
    (dense : ∀ i < sizes.length, (base i).Dense element) :
    (assembled kind sizes base start step).Dense element := by
  constructor
  · change sizes.sum = _
    rw [assembled, leaves_inner, List.flatMap_map, List.map_flatMap, List.flatMap_def,
      List.sum_flatten, List.map_map]
    conv_lhs => rw [← map_range_size sized]
    refine congrArg List.sum (List.map_congr_left (fun i inRange => ?_))
    rw [Function.comp_apply, leaves_moved, List.map_map, (dense i (List.mem_range.mp inRange)).size]
    rfl
  · intro leaf inLeaves
    rw [assembled, leaves_inner, List.flatMap_map, List.mem_flatMap] at inLeaves
    obtain ⟨i, inRange, inChild⟩ := inLeaves
    rw [leaves_moved] at inChild
    obtain ⟨other, inBase, rfl⟩ := List.mem_map.mp inChild
    exact (dense i (List.mem_range.mp inRange)).element other inBase
  · rw [assembled, places_inner, List.flatMap_map]
    refine @enumerates_flatMap sizes slot 0 1 start step _ tiling Nat.one_pos
      (fun i below j => ?_) (fun i size found => ?_)
    · rw [slots i below, Nat.zero_add, Nat.mul_one]
    · have below := (List.getElem?_eq_some_iff.mp found).1
      have moved := @enumerates_moved (start i) _ _ _ (stepPos i below) (dense i below).places
      rw [places_moved]
      rwa [sized i size found] at moved

end Inner

end LocalNode

end DofNumbering
