import DofNumbering.Proofs.Basis.Relocation
import DofNumbering.Proofs.Local.Recording
import DofNumbering.Proofs.Local.Steps

namespace DofNumbering

/-! Whenever the indices of a bound tree are written to the end, they are those of the
numbering.

This does not ask for a dimension or a local size that are indices: an arithmetic that
leaves them stops the writing.
-/

variable {basis child : Basis} {numbering : Numbering} {grid : GridView} {least : Nat}
  {members : Members} {blocked : Bool} {merging : Merging} {exponent element : Nat}
  {base : LocalNode}

/-- Unless a fault stops it, the basis writes the indices of its numbering for its tree on an
element, wherever that has been moved. -/
structure Basis.RecordsNumbering (basis : Basis) (numbering : Numbering) (element : Nat)
    (base : LocalNode) : Prop where
  sizeNil : ∀ count, basis.size [] = .ok count → count = numbering.root
  records : ∀ {offset stride : Nat}, 0 < stride → Records (basis.indices (base.moved offset stride))
    {place | place ∈ (base.moved offset stride).places}
    (fun place => numbering.index element ((place - offset) / stride))

theorem position_of_place (offset j : Nat) {stride : Nat} (positive : 0 < stride) :
    (offset + j * stride - offset) / stride = j := by
  rw [Nat.add_sub_cancel_left, Nat.mul_div_cancel _ positive]

namespace LagrangeBasis

variable {basis : LagrangeBasis}

theorem index_of_writeIndex {leaf : LeafNode} {j : Nat} {index : Nat → MultiIndex}
    (final : index (leaf.offset + j * leaf.stride) = .flat (basis.number leaf.element j)) :
    Records (basis.writeIndex leaf j) {leaf.offset + j * leaf.stride} index := by
  intro buffer after ran
  obtain ⟨position, found, ranUpdate⟩ := Change.of_lift_eq_ok ran
  obtain ⟨-, -, rfl⟩ := LeafNode.localIndex_eq_ok_iff.mp found
  obtain ⟨old, new, -, done, written, others⟩ := Buffer.of_update ranUpdate
  refine ⟨?_, others⟩
  rintro _ rfl
  rw [written, final]
  cases numbered : basis.globalIndex leaf.element j with
  | error fault =>
      rw [numbered] at done
      contradiction
  | ok number =>
      rw [numbered] at done
      obtain rfl := Except.ok.inj done
      rw [number_of_globalIndex numbered]

theorem recordsNumbering (basis : LagrangeBasis) (element : Nat) :
    basis.toBasis.RecordsNumbering basis.numbering element
      (.leaf ⟨basis.finite, element, 0, 1⟩) where
  sizeNil count sized := (Except.ok.inj sized).symm
  records {offset stride} positive := by
    have first : offset + 0 * stride = offset := by rw [Nat.zero_mul, Nat.add_zero]
    rw [LocalNode.moved, LeafNode.moved, Nat.one_mul, first, LocalNode.places, LocalNode.leaves,
      List.flatMap_singleton]
    refine Records.forM (fun j _ => ?_)
    refine @index_of_writeIndex basis ⟨basis.finite, element, offset, stride⟩ j _ ?_
    rw [position_of_place offset j positive]
    rfl

end LagrangeBasis

section Parts

variable {kind : InnerKind} {sizes : List Nat} {part : Nat → Basis} {partNumbering : Nat → Numbering}
  {partBase : Nat → LocalNode} {start step : Nat → Nat}
  {place : (offset stride child size : Nat) → Except Fault (Nat × Nat)}
  {bind : (child : Nat) → LocalNode → (offset stride : Nat) → Except Fault LocalNode}

/-- If what the parts write is turned into indices of the node at their positions, the node
records its numbering. -/
theorem RelocatesParts.records
    (parts : RelocatesParts basis numbering element kind sizes part partNumbering partBase start
      step place bind)
    (recorded : ∀ i < sizes.length,
      (part i).RecordsNumbering (partNumbering i) element (partBase i))
    {write : (child : Nat) → LocalNode → Change Buffer Unit}
    {merge : (child : Nat) → Except Fault (MultiIndex → Except Fault MultiIndex)}
    (writes : ∀ i < sizes.length, ∀ node, write i node = (part i).indices node)
    (merges : ∀ i < sizes.length, ∀ change, merge i = .ok change →
      ∀ j < (partNumbering i).size, ∀ merged,
        change ((partNumbering i).index element j) = .ok merged →
          merged = numbering.index element (start i + j * step i))
    {offset stride : Nat} (positive : 0 < stride) :
    Records (Basis.writeChildren write merge 0 ((List.range sizes.length).map (fun i =>
        (partBase i).moved (offset + start i * stride) (step i * stride))))
      {place | place ∈
        ((LocalNode.assembled kind sizes partBase start step).moved offset stride).places}
      (fun place => numbering.index element ((place - offset) / stride)) := by
  rw [LocalNode.moved_assembled, LocalNode.places_inner]
  refine Records.writeChildren 0 (fun i node found => ?_)
  obtain ⟨below, rfl⟩ := of_getElem?_map_range found
  have stepPos := Nat.mul_pos (parts.stepPos i below) positive
  have enumerated := @LocalNode.enumerates_moved (offset + start i * stride) _ _ _ stepPos
    (parts.relocates i below).dense.places
  rw [← LocalNode.places_moved, (parts.relocates i below).size] at enumerated
  rw [Nat.zero_add, writes i below]
  refine Records.writeChild enumerated.1 ((recorded i below).records stepPos) ?_
  intro change mergesChild place inPart merged done
  obtain ⟨j, within, rfl⟩ := (enumerated.2 place).mp inPart
  rw [position_of_place _ j stepPos] at done
  have place : offset + start i * stride + j * (step i * stride) =
      offset + (start i + j * step i) * stride := by
    rw [Nat.add_mul, Nat.mul_assoc, Nat.add_assoc]
  rw [merges i below change mergesChild j within merged done, place,
    position_of_place offset _ positive]

end Parts

theorem MultiIndex.of_addToEntry_zero {shift : Nat} {index merged : MultiIndex}
    (done : addToEntry 0 shift index = .ok merged) (part : Nat) :
    merged = .joined false shift part index := by
  cases index with
  | nil => contradiction
  | cons first rest =>
      obtain ⟨entry, found, adds⟩ := bind_eq_ok_iff.mp done
      obtain rfl : first = entry := Except.ok.inj found
      obtain ⟨sum, added, set⟩ := bind_eq_ok_iff.mp adds
      obtain ⟨-, rfl⟩ := Index.add_eq_ok_iff.mp added
      rw [← Except.ok.inj set, Nat.add_comm]
      rfl

namespace PowerBasis

variable {i root childSize : Nat} {index merged : MultiIndex}

theorem of_mergeIndex_lexicographic
    (done : mergeIndex ⟨⟨blocked, .lexicographic⟩, exponent, child⟩ root i index = .ok merged) :
    merged = .joined blocked (i * root) i index := by
  cases blocked with
  | true => exact (Except.ok.inj done).symm
  | false =>
      obtain ⟨shift, shifted, adds⟩ := bind_eq_ok_iff.mp done
      obtain ⟨-, rfl⟩ := Index.mul_eq_ok_iff.mp shifted
      exact MultiIndex.of_addToEntry_zero adds i

theorem of_mergeIndex_interleaved
    (done : mergeIndex ⟨⟨blocked, .interleaved⟩, exponent, child⟩ childSize i index = .ok merged) :
    merged = .interleaved blocked exponent i index := by
  cases blocked with
  | true => exact (Except.ok.inj done).symm
  | false =>
      cases index with
      | nil => contradiction
      | cons first rest =>
          obtain ⟨entry, found, scales⟩ := bind_eq_ok_iff.mp done
          obtain rfl : first = entry := Except.ok.inj found
          obtain ⟨scaled, multiplied, adds⟩ := bind_eq_ok_iff.mp scales
          obtain ⟨-, rfl⟩ := Index.mul_eq_ok_iff.mp multiplied
          obtain ⟨sum, added, set⟩ := bind_eq_ok_iff.mp adds
          obtain ⟨-, rfl⟩ := Index.add_eq_ok_iff.mp added
          rw [← Except.ok.inj set]
          rfl

theorem of_size_nil (sizeNil : ∀ count, child.size [] = .ok count → count = numbering.root)
    {count : Nat} (sized : size ⟨merging, exponent, child⟩ [] = .ok count) :
    count = (numbering.power merging exponent).root := by
  obtain ⟨blocked, layout⟩ := merging
  have flat : ∀ childFirst, flatSize ⟨⟨blocked, layout⟩, exponent, child⟩ childFirst [] =
      .ok count → count = exponent * numbering.root := by
    intro childFirst sized
    obtain ⟨inner, found, multiplied⟩ := bind_eq_ok_iff.mp sized
    obtain ⟨-, rfl⟩ := Index.mul_eq_ok_iff.mp multiplied
    rw [sizeNil inner found]
  cases layout with
  | lexicographic =>
      cases blocked with
      | true =>
          rw [← Except.ok.inj sized]
          simp [Numbering.power, Numbering.copies, Numbering.joined]
      | false =>
          rw [flat Index.mod sized]
          simp [Numbering.power, Numbering.copies, Numbering.joined]
  | interleaved =>
      cases blocked with
      | true =>
          obtain ⟨inner, found, rest⟩ := bind_eq_ok_iff.mp sized
          rw [if_pos (.inr rfl)] at rest
          rw [← Except.ok.inj rest]
          exact sizeNil inner found
      | false => exact flat (fun first _ => Index.div first exponent) sized

section Copies

variable (recorded : child.RecordsNumbering numbering element base)
include recorded

/-- What the copies of a power write is turned into its own indices if a merge gives, at
their positions, the index that the numbering has there. -/
theorem recordsNumbering_of_parts {start step : Nat → Nat}
    (parts : RelocatesParts (PowerBasis.toBasis ⟨merging, exponent, child⟩)
      (numbering.power merging exponent) element .power (List.replicate exponent numbering.size)
      (fun _ => child) (fun _ => numbering) (fun _ => base) start step
      (place ⟨merging, exponent, child⟩)
      (fun _ node offset stride => child.bindNode node element offset stride))
    (merges : ∀ i < exponent, ∀ j < numbering.size, ∀ merged,
      mergeIndex ⟨merging, exponent, child⟩ numbering.root i (numbering.index element j) =
        .ok merged →
      merged = (numbering.power merging exponent).index element (start i + j * step i)) :
    (PowerBasis.toBasis ⟨merging, exponent, child⟩).RecordsNumbering
      (numbering.power merging exponent) element
      (.assembled .power (List.replicate exponent numbering.size) (fun _ => base) start step) where
  sizeNil _ := of_size_nil recorded.sizeNil
  records {offset stride} positive := by
    intro buffer after ran
    rw [LocalNode.moved_assembled] at ran
    obtain ⟨children, isPower, ranSize⟩ := Change.of_lift_eq_ok ran
    obtain rfl := Except.ok.inj isPower
    obtain ⟨childSize, sized, ranChildren⟩ := Change.of_lift_eq_ok ranSize
    rw [recorded.sizeNil childSize sized] at ranChildren
    refine parts.records (fun _ _ => recorded) (fun _ _ _ => rfl) ?_ positive buffer after ranChildren
    rintro i below _ ⟨⟩ j within merged done
    rw [List.length_replicate] at below
    exact merges i below j within merged done

theorem exists_recordsNumbering (relocates : child.Relocates numbering element base) : ∃ whole,
    (PowerBasis.toBasis ⟨merging, exponent, child⟩).Relocates (numbering.power merging exponent)
      element whole ∧
    (PowerBasis.toBasis ⟨merging, exponent, child⟩).RecordsNumbering
      (numbering.power merging exponent) element whole := by
  obtain ⟨blocked, layout⟩ := merging
  cases layout with
  | lexicographic =>
      have parts := @parts_lexicographic _ _ blocked exponent _ _ relocates
      refine ⟨_, parts.relocates_assembled, recordsNumbering_of_parts recorded parts ?_⟩
      intro i below j within merged done
      have slot := @Numbering.index_joined blocked (List.replicate exponent numbering) numbering
        element j i (by rw [List.getElem?_replicate, if_pos below]) within
      rw [List.map_replicate, List.map_replicate, partOffset_replicate (Nat.le_of_lt below),
        partOffset_replicate (Nat.le_of_lt below)] at slot
      rw [of_mergeIndex_lexicographic done, partOffset_replicate (Nat.le_of_lt below), Nat.mul_one]
      exact slot.symm
  | interleaved =>
      have parts := @parts_interleaved _ _ blocked exponent _ _ relocates
      refine ⟨_, parts.relocates_assembled, recordsNumbering_of_parts recorded parts ?_⟩
      intro i below j within merged done
      rw [of_mergeIndex_interleaved done, id, Nat.add_comm]
      exact (Numbering.index_interleaved below).symm

end Copies

end PowerBasis

namespace CompositeBasis

variable {numbering : Basis → Numbering} {base : Basis → LocalNode}

section Sizes

variable (sizeNil : ∀ member ∈ members.toList, ∀ count, member.size [] = .ok count →
  count = (numbering member).root)
include sizeNil

theorem of_rootOffset {i shift : Nat} (done : rootOffset ⟨blocked, members⟩ i = .ok shift) :
    shift = partOffset ((members.toList.map numbering).map Numbering.root) i := by
  have sum := @Index.of_sumFrom_eq_ok _ _ (Numbering.root ∘ numbering) _ _ _ done
    (fun member inTake count found _ =>
      (sizeNil member (List.mem_of_mem_take inTake) count found).symm)
  rw [sum, Nat.zero_add, List.map_map, partOffset_map]

theorem of_merge {i : Nat} {change : MultiIndex → Except Fault MultiIndex} {index merged : MultiIndex}
    (merges : merge ⟨blocked, members⟩ i = .ok change) (done : change index = .ok merged) :
    merged = .joined blocked
      (partOffset ((members.toList.map numbering).map Numbering.root) i) i index := by
  cases blocked with
  | true =>
      obtain rfl := Except.ok.inj merges
      exact (Except.ok.inj done).symm
  | false =>
      obtain ⟨shift, found, changes⟩ := bind_eq_ok_iff.mp merges
      obtain rfl := Except.ok.inj changes
      rw [← of_rootOffset sizeNil found]
      exact MultiIndex.of_addToEntry_zero done i

theorem of_size_nil {count : Nat} (sized : size ⟨blocked, members⟩ [] = .ok count) :
    count = (Numbering.joined blocked (members.toList.map numbering)).root := by
  cases blocked with
  | true =>
      rw [← Except.ok.inj sized]
      exact (List.length_map ..).symm
  | false =>
      have sum := @Index.of_sumFrom_eq_ok _ _ (Numbering.root ∘ numbering) _ _ _ sized
        (fun member inMembers count found _ => (sizeNil member inMembers count found).symm)
      rw [sum, Nat.zero_add, ← List.map_map]
      rfl

end Sizes

theorem exists_recordsNumbering
    (relocates : ∀ member ∈ members.toList,
      member.Relocates (numbering member) element (base member))
    (recorded : ∀ member ∈ members.toList,
      member.RecordsNumbering (numbering member) element (base member)) : ∃ whole,
    (CompositeBasis.toBasis ⟨blocked, members⟩).Relocates
      (.joined blocked (members.toList.map numbering)) element whole ∧
    (CompositeBasis.toBasis ⟨blocked, members⟩).RecordsNumbering
      (.joined blocked (members.toList.map numbering)) element whole := by
  have length := @Members.length_localSizes members numbering
  have sizeNil := fun member inMembers => (recorded member inMembers).sizeNil
  have parts := @relocatesParts _ blocked _ _ _ relocates
  refine ⟨_, parts.relocates_assembled, fun _ => of_size_nil sizeNil, fun {offset stride} positive => ?_⟩
  intro buffer after ran
  rw [LocalNode.moved_assembled] at ran
  obtain ⟨children, isComposite, ranChildren⟩ := Change.of_lift_eq_ok ran
  obtain rfl := Except.ok.inj isComposite
  refine parts.records (fun i below => recorded _ (members.at_mem (length ▸ below)))
    (fun i below node => ?_) ?_ positive buffer after ranChildren
  · rw [members.member_eq_ok (length ▸ below)]
    rfl
  · intro i below change merges j within merged done
    have found := members.getElem?_toList (length ▸ below)
    have slot := @Numbering.index_joined blocked (members.toList.map numbering) _ element j i
      (by rw [List.getElem?_map, found]; rfl) within
    rw [of_merge sizeNil merges done, Nat.mul_one]
    exact slot.symm

end CompositeBasis

theorem Numbered.exists_recordsNumbering (numbered : Numbered grid least basis numbering)
    (element : Nat) : ∃ base, basis.Relocates numbering element base ∧
      basis.RecordsNumbering numbering element base := by
  induction numbered with
  | lagrange _ =>
      exact ⟨_, LagrangeBasis.relocates _ element, LagrangeBasis.recordsNumbering _ element⟩
  | power merging exponent enough _ ih =>
      obtain ⟨base, relocates, recorded⟩ := ih
      exact PowerBasis.exists_recordsNumbering recorded relocates
  | composite numbering created _ ih =>
      cases CompositeBasis.create_eq_ok created
      choose! base both using ih
      exact CompositeBasis.exists_recordsNumbering (fun member inMembers => (both member inMembers).1)
        (fun member inMembers => (both member inMembers).2)
  | tagged tag _ ih =>
      obtain ⟨base, relocates, recorded⟩ := ih
      exact ⟨base, { relocates with }, { recorded with }⟩

/-- A set that has been bound to a view of an element shows the numbering. -/
theorem Numbered.shows_of_bind (numbered : Numbered grid least basis numbering)
    {view : LocalView} {set after : LocalIndexSet} (same : set.basis = basis)
    (tree : basis.bindNode basis.createNode element 0 1 = .ok view.tree)
    (ran : LocalIndexSet.bind view set = .ok () after) : after.Shows numbering element := by
  obtain ⟨base, relocates, recorded⟩ := numbered.exists_recordsNumbering element
  obtain rfl : view.tree = base :=
    (relocates.eq_moved relocates.createNode tree).trans base.moved_first
  obtain ⟨isBound, owner, -⟩ := LocalIndexSet.of_bind_eq_ok ran
  rw [LocalIndexSet.bind_of_bound isBound owner, same] at ran
  split at ran
  · rename_i written wrote
    obtain rfl := (EStateM.Result.ok.inj ran).2
    refine ⟨isBound, relocates.size, fun j below => ?_⟩
    have inTree : j ∈ view.tree.places :=
      (relocates.dense.places.2 j).mpr ⟨j, relocates.size ▸ below, by omega⟩
    have records := @recorded.records 0 1 Nat.one_pos
    rw [LocalNode.moved_first] at records
    have entry : written[j]? = some (numbering.index element ((j - 0) / 1)) :=
      (records _ _ wrote).1 j inTree
    rw [Nat.sub_zero, Nat.div_one] at entry
    rw [Array.getElem?_append_left (Array.getElem?_eq_some_iff.mp entry).1, entry]
  · contradiction

theorem Numbered.shows_of_bindFresh (numbered : Numbered grid least basis numbering)
    {view : LocalView} {set : LocalIndexSet} (ran : bindFresh basis element = .ok (view, set)) :
    set.Shows numbering element := by
  obtain ⟨bound, bindsSet⟩ := of_bindFresh_eq_ok ran
  obtain ⟨-, -, tree, binds, rfl⟩ := LocalView.bind_eq_ok_iff.mp bound
  refine numbered.shows_of_bind rfl ?_ bindsSet
  exact binds

end DofNumbering
