import DofNumbering.Proofs.Built
import DofNumbering.Proofs.Relocation

namespace DofNumbering

/-! Built bases relocate their trees.

The copies or members of a node come one after the other, except for those of an
interleaved power.
-/

variable {grid : GridView} {least : Nat} {basis child : Basis} {numbering : Numbering}
  {members : Members} {blocked : Bool} {merging : Merging} {exponent element : Nat}
  {sizes : List Nat} {base : LocalNode}

theorem LagrangeBasis.bindNode_leaf_eq_ok_iff {leaf : LeafNode} {offset stride : Nat}
    {bound : LocalNode} : bindNode (.leaf leaf) element offset stride = .ok bound ↔
      0 < stride ∧ bound = .leaf ⟨leaf.finite, element, offset, stride⟩ := by
  rw [bindNode, LocalNode.expectLeaf, ok_bind, LeafNode.bind]
  by_cases positive : 0 < stride
  · rw [if_pos positive, ok_bind, Except.ok.injEq, eq_comm]
    exact (and_iff_right positive).symm
  · simp [positive]

theorem LagrangeBasis.relocates (basis : LagrangeBasis) (element : Nat) :
    basis.toBasis.Relocates basis.numbering element (.leaf ⟨basis.finite, element, 0, 1⟩) := by
  have binds : ∀ {node : LocalNode} {offset stride : Nat},
      node.released = basis.toBasis.createNode → 0 < stride →
      basis.toBasis.bindNode node element offset stride =
        .ok ((LocalNode.leaf ⟨basis.finite, element, 0, 1⟩).moved offset stride) := by
    intro node offset stride shape positive
    obtain ⟨other, rfl, same⟩ := LocalNode.of_released_leaf shape
    refine bindNode_leaf_eq_ok_iff.mpr ⟨positive, ?_⟩
    rw [same, LocalNode.moved, LeafNode.moved, Nat.zero_mul, Nat.add_zero, Nat.one_mul]
    rfl
  have sizes := basis.finite.size_pos_and_le
  have small : basis.finite.size < Index.limit := Nat.lt_of_le_of_lt sizes.2 (by decide)
  refine {
    createNode := rfl
    released := rfl
    dense := LocalNode.dense_leaf basis.finite element
    size := rfl
    sizeLe := Nat.le_refl _
    placesLe := (by omega : 2 ≤ basis.finite.size)
    shrinks := fun {node _ _ stride} shape ran => ?_
    fits := fun _ _ _ shape positive _ _ => binds shape positive }
  obtain ⟨other, rfl, -⟩ := LocalNode.of_released_leaf shape
  obtain ⟨positive, -⟩ := bindNode_leaf_eq_ok_iff.mp ran
  refine ⟨small, fun node' shape' _ _ stride' _ positive' => binds shape' ?_⟩
  rcases positive' with positive' | rfl
  · exact positive'
  · exact positive

theorem placing_consecutive
    {place : (offset stride child size : Nat) → Except Fault (Nat × Nat)}
    (rule : ∀ offset stride i, place offset stride i (partOffset sizes i) = do
      let distance ← Index.mul (partOffset sizes i) stride
      let childOffset ← Index.add offset distance
      .ok (childOffset, stride)) :
    Placing place sizes (partOffset sizes) (fun _ => 1) where
  shrinks {offset stride i result} _ placed offset' offsetLe stride' strideLe := by
    rw [rule] at placed ⊢
    obtain ⟨distance, product, rest⟩ := bind_eq_ok_iff.mp placed
    obtain ⟨-, rfl⟩ := Index.mul_eq_ok_iff.mp product
    obtain ⟨sum, added, -⟩ := bind_eq_ok_iff.mp rest
    obtain ⟨room, -⟩ := Index.add_eq_ok_iff.mp added
    have le := Nat.mul_le_mul_left (partOffset sizes i) strideLe
    rw [Index.mul, if_pos (by omega), ok_bind, Index.add, if_pos (by omega), ok_bind, Nat.one_mul]
  fits _ room _ := by
    rw [rule, Index.mul, if_pos (by omega), ok_bind, Index.add, if_pos room, ok_bind, Nat.one_mul]

theorem placing_interleaved :
    Placing (PowerBasis.place ⟨⟨blocked, .interleaved⟩, exponent, child⟩) sizes id
      (fun _ => exponent) where
  shrinks {offset stride i result} _ placed offset' offsetLe stride' strideLe := by
    obtain ⟨distance, product, rest⟩ := bind_eq_ok_iff.mp placed
    obtain ⟨-, rfl⟩ := Index.mul_eq_ok_iff.mp product
    obtain ⟨sum, added, last⟩ := bind_eq_ok_iff.mp rest
    obtain ⟨room, -⟩ := Index.add_eq_ok_iff.mp added
    obtain ⟨childStride, multiplied, -⟩ := bind_eq_ok_iff.mp last
    obtain ⟨roomStride, -⟩ := Index.mul_eq_ok_iff.mp multiplied
    have startLe := Nat.mul_le_mul_left i strideLe
    have stepLe := Nat.mul_le_mul_left exponent strideLe
    change exponent * stride < Index.limit at roomStride
    simp only [PowerBasis.place, Index.mul, Index.add, id]
    rw [if_pos (by omega), ok_bind, if_pos (by omega), ok_bind, if_pos (by omega), ok_bind]
  fits {offset stride i} _ room roomStride := by
    rw [id] at room ⊢
    simp only [PowerBasis.place, Index.mul, Index.add]
    rw [if_pos (by omega), ok_bind, if_pos room, ok_bind, if_pos roomStride, ok_bind]

section Power

variable (childRelocates : child.Relocates numbering element base)
include childRelocates

theorem PowerBasis.relocatesParts {start step : Nat → Nat}
    (placing : Placing (place ⟨merging, exponent, child⟩) (List.replicate exponent numbering.size)
      start step)
    (tiling : Tiling (List.replicate exponent numbering.size) (fun i j => start i + j * step i))
    (stepPos : ∀ i < exponent, 0 < step i)
    (within : ∀ i < exponent,
      start i + (numbering.places - 1) * step i < exponent * numbering.places) :
    RelocatesParts (PowerBasis.toBasis ⟨merging, exponent, child⟩)
      (numbering.power merging exponent) element .power (List.replicate exponent numbering.size)
      (fun _ => child) (fun _ => numbering) (fun _ => base) start step
      (place ⟨merging, exponent, child⟩)
      (fun _ node offset stride => child.bindNode node element offset stride) := by
  have length : (List.replicate exponent numbering.size).length = exponent := List.length_replicate
  have most : exponent * numbering.places ≤ (numbering.power merging exponent).places :=
    Nat.mul_le_mul_right _ (Nat.le_max_right ..)
  refine {
    createNode := ?_
    bindNode := fun _ _ _ _ => rfl
    bindPart := fun _ _ _ _ _ => rfl
    placing, tiling
    stepPos := by rwa [length]
    relocates := fun _ _ => childRelocates
    sized := fun _ _ found => (part_of_replicate found).2
    size := (Numbering.size_power merging).trans List.sum_replicate_nat.symm
    sizeLe := ?_
    placesLe := childRelocates.placesLe.trans Numbering.places_le_power
    within := fun i below => Nat.lt_of_lt_of_le (within i (length ▸ below)) most }
  · change LocalNode.inner .power (List.replicate exponent child.createNode) 0 = _
    rw [length, List.map_const', List.length_range]
  · rw [Numbering.size_power]
    exact (Nat.mul_le_mul_left exponent childRelocates.sizeLe).trans most

theorem PowerBasis.parts_lexicographic :
    RelocatesParts (PowerBasis.toBasis ⟨⟨blocked, .lexicographic⟩, exponent, child⟩)
      (numbering.power ⟨blocked, .lexicographic⟩ exponent) element .power
      (List.replicate exponent numbering.size) (fun _ => child) (fun _ => numbering) (fun _ => base)
      (partOffset (List.replicate exponent numbering.size)) (fun _ => 1)
      (place ⟨⟨blocked, .lexicographic⟩, exponent, child⟩)
      (fun _ node offset stride => child.bindNode node element offset stride) := by
  have two := childRelocates.placesLe
  have tiling := tiling_consecutive (List.replicate exponent numbering.size)
  refine relocatesParts childRelocates (placing_consecutive fun _ _ _ => rfl)
    (by simpa only [Nat.mul_one] using tiling) (fun _ _ => Nat.one_pos) (fun i below => ?_)
  have before := numbering.copy_add_places_le childRelocates.sizeLe below
  rw [partOffset_replicate (by omega)]
  omega

theorem PowerBasis.parts_interleaved :
    RelocatesParts (PowerBasis.toBasis ⟨⟨blocked, .interleaved⟩, exponent, child⟩)
      (numbering.power ⟨blocked, .interleaved⟩ exponent) element .power
      (List.replicate exponent numbering.size) (fun _ => child) (fun _ => numbering) (fun _ => base)
      id (fun _ => exponent) (place ⟨⟨blocked, .interleaved⟩, exponent, child⟩)
      (fun _ node offset stride => child.bindNode node element offset stride) := by
  have two := childRelocates.placesLe
  have tiling := tiling_interleaved exponent numbering.size
  refine relocatesParts childRelocates placing_interleaved
    (by simpa only [id, Nat.add_comm] using tiling) (fun i below => Nat.zero_lt_of_lt below)
    (fun i below => ?_)
  obtain ⟨rest, placesEq⟩ : ∃ rest, numbering.places = rest + 1 :=
    ⟨numbering.places - 1, by omega⟩
  rw [placesEq, Nat.add_sub_cancel, Nat.mul_succ, Nat.mul_comm exponent, id]
  omega

theorem PowerBasis.relocates_lexicographic :
    (PowerBasis.toBasis ⟨⟨blocked, .lexicographic⟩, exponent, child⟩).Relocates
      (numbering.power ⟨blocked, .lexicographic⟩ exponent) element
      (.assembled .power (List.replicate exponent numbering.size) (fun _ => base)
        (partOffset (List.replicate exponent numbering.size)) (fun _ => 1)) :=
  (parts_lexicographic childRelocates).relocates_assembled

theorem PowerBasis.relocates_interleaved :
    (PowerBasis.toBasis ⟨⟨blocked, .interleaved⟩, exponent, child⟩).Relocates
      (numbering.power ⟨blocked, .interleaved⟩ exponent) element
      (.assembled .power (List.replicate exponent numbering.size) (fun _ => base) id
        (fun _ => exponent)) :=
  (parts_interleaved childRelocates).relocates_assembled

theorem PowerBasis.exists_relocates : ∃ whole,
    (PowerBasis.toBasis ⟨merging, exponent, child⟩).Relocates (numbering.power merging exponent)
      element whole := by
  obtain ⟨blocked, layout⟩ := merging
  cases layout with
  | lexicographic => exact ⟨_, relocates_lexicographic childRelocates⟩
  | interleaved => exact ⟨_, relocates_interleaved childRelocates⟩

end Power

theorem CompositeBasis.relocatesParts {numbering : Basis → Numbering} {base : Basis → LocalNode}
    (relocates : ∀ member ∈ members.toList,
      member.Relocates (numbering member) element (base member)) :
    RelocatesParts (CompositeBasis.toBasis ⟨blocked, members⟩)
      (.joined blocked (members.toList.map numbering)) element .composite
      (members.localSizes numbering) members.at (fun i => numbering (members.at i))
      (fun i => base (members.at i)) (partOffset (members.localSizes numbering)) (fun _ => 1) place
      (fun child node offset stride => do
        let member ← members.member child
        member.bindNode node element offset stride) := by
  have length := @Members.length_localSizes members numbering
  have tiling := tiling_consecutive (members.localSizes numbering)
  have sizeLe := fun member inMembers => (relocates member inMembers).sizeLe
  refine {
    createNode := ?_
    bindNode := fun _ _ _ _ => rfl
    bindPart := fun i below _ _ _ => by rw [members.member_eq_ok (length ▸ below), ok_bind]
    placing := placing_consecutive fun _ _ _ => rfl
    tiling := by simpa only [Nat.mul_one] using tiling
    stepPos := fun _ _ => Nat.one_pos
    relocates := fun i below => relocates _ (members.at_mem (length ▸ below))
    sized := fun i size found => ?_
    size := rfl
    sizeLe := ?_
    placesLe := (relocates _ members.first_mem).placesLe.trans
      (Numbering.places_le_joined (List.mem_map_of_mem members.first_mem))
    within := fun i below => ?_ }
  · rw [length, Members.map_range_at]
    rfl
  · have below := length ▸ (List.getElem?_eq_some_iff.mp found).1
    have found' := members.getElem?_measures numbering Numbering.size below
    exact Option.some.inj (found'.symm.trans found)
  · refine List.sum_le_sum (fun part inParts => ?_)
    obtain ⟨member, inMembers, rfl⟩ := List.mem_map.mp inParts
    exact sizeLe member inMembers
  · rw [length] at below
    have before := Members.partOffset_add_places_le sizeLe below
    have two := (relocates _ (members.at_mem below)).placesLe
    change _ < ((members.toList.map numbering).map Numbering.places).sum
    rw [Nat.mul_one]
    omega

theorem CompositeBasis.exists_relocates {numbering : Basis → Numbering} {base : Basis → LocalNode}
    (relocates : ∀ member ∈ members.toList,
      member.Relocates (numbering member) element (base member)) : ∃ whole,
    (CompositeBasis.toBasis ⟨blocked, members⟩).Relocates
      (.joined blocked (members.toList.map numbering)) element whole :=
  ⟨_, (relocatesParts relocates).relocates_assembled⟩

theorem Numbered.exists_relocates (numbered : Numbered grid least basis numbering) (element : Nat) :
    ∃ base, basis.Relocates numbering element base := by
  induction numbered with
  | lagrange _ => exact ⟨_, LagrangeBasis.relocates _ element⟩
  | power merging exponent enough _ ih =>
      obtain ⟨base, relocates⟩ := ih
      exact PowerBasis.exists_relocates relocates
  | composite numbering created _ ih =>
      cases CompositeBasis.create_eq_ok created
      choose! base relocates using ih
      exact CompositeBasis.exists_relocates relocates
  | tagged tag _ ih =>
      obtain ⟨base, relocates⟩ := ih
      exact ⟨base, { relocates with }⟩

end DofNumbering
