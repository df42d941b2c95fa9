import DofNumbering.Basis.Power
import DofNumbering.Proofs.Realization

namespace DofNumbering

/-! Powers realize the numberings of copies, if their children realize theirs. -/

variable {child : Basis} {numbering : Numbering} {blocked : Bool} {merging : Merging}
  {exponent element offset stride : Nat}

theorem PowerBasis.mergeIndex_lexicographic {i : Nat} {index : MultiIndex} {first : Nat}
    {rest : List Nat} (head : index = first :: rest ∧ first < numbering.root) (below : i < exponent)
    (room : exponent * numbering.root < Index.limit) :
    mergeIndex ⟨⟨blocked, .lexicographic⟩, exponent, child⟩ numbering.root i index =
      .ok (.joined blocked (i * numbering.root) i index) := by
  obtain ⟨rfl, inRange⟩ := head
  cases blocked with
  | true => rfl
  | false =>
      have le := Nat.mul_le_mul_right numbering.root (Nat.succ_le_of_lt below)
      rw [Nat.succ_mul] at le
      have shifted : Index.mul i numbering.root = .ok (i * numbering.root) :=
        Index.mul_eq_ok_iff.mpr ⟨by omega, rfl⟩
      have added : Index.add first (i * numbering.root) = .ok (first + i * numbering.root) :=
        Index.add_eq_ok_iff.mpr ⟨by omega, rfl⟩
      simp only [mergeIndex, shifted, ok_bind, MultiIndex.addToEntry, Index.entry,
        List.getElem?_cons_zero, added, Nat.add_comm first]
      rfl

theorem PowerBasis.mergeIndex_interleaved {i childSize : Nat} {index : MultiIndex} {first : Nat}
    {rest : List Nat} (head : index = first :: rest ∧ first < numbering.root) (below : i < exponent)
    (room : exponent * numbering.root < Index.limit) :
    mergeIndex ⟨⟨blocked, .interleaved⟩, exponent, child⟩ childSize i index =
      .ok (.interleaved blocked exponent i index) := by
  obtain ⟨rfl, inRange⟩ := head
  cases blocked with
  | true => rfl
  | false =>
      have le := Nat.mul_le_mul_right exponent (Nat.succ_le_of_lt inRange)
      rw [Nat.succ_mul, Nat.mul_comm numbering.root] at le
      have scaled : Index.mul first exponent = .ok (first * exponent) :=
        Index.mul_eq_ok_iff.mpr ⟨by omega, rfl⟩
      have added : Index.add (first * exponent) i = .ok (first * exponent + i) :=
        Index.add_eq_ok_iff.mpr ⟨by omega, rfl⟩
      simp only [mergeIndex, Index.entry, List.getElem?_cons_zero, ok_bind, scaled, added]
      rfl

/-- A power binds its copies to their parts of its own places. -/
theorem PowerBasis.binds_of_parts {slot : Nat → Nat → Nat} {childOffset childStride : Nat → Nat}
    {bound : Nat → LocalNode} (sizeNil : child.size [] = .ok numbering.root)
    (parts : BindsParts (fun _ => child) (fun _ => numbering)
      (List.replicate exponent numbering.size) slot element offset stride childOffset childStride
      bound)
    (placed : ∀ i < exponent, place ⟨merging, exponent, child⟩ offset stride i
      (partOffset (List.replicate exponent numbering.size) i) = .ok (childOffset i, childStride i))
    (merges : ∀ i < exponent, ∀ j < numbering.size,
      mergeIndex ⟨merging, exponent, child⟩ numbering.root i (numbering.index element j) =
        .ok ((numbering.power merging exponent).index element (slot i j)))
    (room : exponent * numbering.size < Index.limit) :
    (PowerBasis.toBasis ⟨merging, exponent, child⟩).Binds (numbering.power merging exponent)
      element offset stride
      (.inner .power ((List.range exponent).map bound) (exponent * numbering.size)) := by
  have length : (List.replicate exponent numbering.size).length = exponent :=
    List.length_replicate
  have sum : (List.replicate exponent numbering.size).sum = exponent * numbering.size :=
    List.sum_replicate_nat
  have shape : (List.range exponent).map (fun _ => child.createNode) =
      List.replicate exponent child.createNode := by simp
  refine { bindNode := ?_, released := ?_, size := (Numbering.size_power ..).symm, listed := ?_, fills := ?_ }
  · intro node sameShape
    obtain ⟨children, size, rfl, releasedChildren⟩ := LocalNode.of_released_inner sameShape
    have all := @parts.bindChildren _ _ _ _ _ _ _ _ _ _ (place ⟨merging, exponent, child⟩ offset stride)
      (fun _ node => child.bindNode node element) children
      (by rw [releasedChildren, length, shape]) (by rwa [length]) (fun _ _ _ => rfl) (by rwa [sum])
    change PowerBasis.bindNode _ _ _ _ _ = _
    rw [PowerBasis.bindNode, LocalNode.expectPower, ok_bind, all, ok_bind, length, sum]
  · have released := parts.released .power
    rw [length, sum, shape] at released
    exact released
  · have listed := parts.listed .power
    rwa [length, sum, ← Numbering.size_power merging] at listed
  · have fills := @parts.fills _ _ _ _ _ _ _ _ _ _ (fun _ => child.indices)
      (fun i => .ok (mergeIndex ⟨merging, exponent, child⟩ numbering.root i))
      ((numbering.power merging exponent).index element) (fun _ _ => rfl)
      (fun i below => ⟨_, rfl, merges i (by rwa [length] at below)⟩)
    rw [length, sum, ← Numbering.size_power merging] at fills
    have same : PowerBasis.indices ⟨merging, exponent, child⟩
        (.inner .power ((List.range exponent).map bound) (exponent * numbering.size)) =
        Basis.writeChildren (fun _ => child.indices)
          (fun i => .ok (mergeIndex ⟨merging, exponent, child⟩ numbering.root i)) 0
          ((List.range exponent).map bound) := by
      simp only [PowerBasis.indices, LocalNode.expectPower, sizeNil]
      rfl
    change Fills (PowerBasis.indices ⟨merging, exponent, child⟩ _) _ _ _ _
    rwa [same]

theorem PowerBasis.size_nil (sizeNil : child.size [] = .ok numbering.root)
    (room : exponent * numbering.root < Index.limit) :
    PowerBasis.size ⟨merging, exponent, child⟩ [] =
      .ok (numbering.power merging exponent).root := by
  have scaled : Index.mul exponent numbering.root = .ok (exponent * numbering.root) :=
    Index.mul_eq_ok_iff.mpr ⟨room, rfl⟩
  obtain ⟨blocked, layout⟩ := merging
  cases layout with
  | lexicographic =>
      cases blocked with
      | true => simp [PowerBasis.size, blockedSize, Numbering.power, Numbering.copies,
          Numbering.joined]
      | false => simp [PowerBasis.size, flatSize, sizeNil, scaled, Numbering.power,
          Numbering.copies, Numbering.joined]
  | interleaved =>
      cases blocked with
      | true => simp [PowerBasis.size, blockedInterleavedSize, sizeNil, Numbering.power,
          Numbering.copies, Numbering.interleaved]
      | false => simp [PowerBasis.size, flatSize, sizeNil, scaled, Numbering.power,
          Numbering.copies, Numbering.interleaved]

/-- A copy begins at least its own places before the end. -/
theorem Numbering.copy_add_places_le (sizeLe : numbering.size ≤ numbering.places) {i : Nat}
    (below : i < exponent) :
    i * numbering.size + numbering.places ≤ exponent * numbering.places := by
  have all := Nat.mul_le_mul_right numbering.places (Nat.succ_le_of_lt below)
  have before := Nat.mul_le_mul_left i sizeLe
  rw [Nat.succ_mul] at all
  omega

theorem PowerBasis.exists_binds_lexicographic (realizes : child.Realizes numbering element)
    (roomRoot : exponent * numbering.root < Index.limit)
    (roomSize : exponent * numbering.size < Index.limit) (positive : 0 < stride)
    (room : offset + (exponent * numbering.places - 1) * stride < Index.limit) :
    ∃ bound, (PowerBasis.toBasis ⟨⟨blocked, .lexicographic⟩, exponent, child⟩).Binds
      (numbering.power ⟨blocked, .lexicographic⟩ exponent) element offset stride bound := by
  have two := realizes.placesLe
  have offsets : ∀ i < exponent,
      partOffset (List.replicate exponent numbering.size) i = i * numbering.size :=
    fun i below => partOffset_replicate (by omega)
  have last : ∀ i < exponent, (i * numbering.size + numbering.places - 1) * stride ≤
      (exponent * numbering.places - 1) * stride := by
    intro i below
    have le := numbering.copy_add_places_le realizes.sizeLe below
    exact Nat.mul_le_mul_right stride (Nat.sub_le_sub_right le 1)
  obtain ⟨bound, parts⟩ := @BindsParts.exists_consecutive (fun _ => child) (fun _ => numbering)
    (List.replicate exponent numbering.size) element offset stride
    (fun _ _ found => (part_of_replicate found).2) (fun _ _ => realizes) positive (by
      intro i below
      rw [List.length_replicate] at below
      have := last i below
      rw [offsets i below]
      omega)
  refine ⟨_, binds_of_parts realizes.sizeNil parts ?_ ?_ roomSize⟩
  · intro i below
    have := last i below
    have start : i * numbering.size * stride ≤
        (i * numbering.size + numbering.places - 1) * stride := Nat.mul_le_mul_right _ (by omega)
    rw [offsets i below]
    simp only [place, Index.mul, Index.add]
    rw [if_pos (by omega), ok_bind, if_pos (by omega), ok_bind]
  · intro i below j within
    obtain ⟨first, rest, head⟩ := realizes.headed j within
    have slot := @Numbering.index_joined blocked (List.replicate exponent numbering) numbering
      element j i (by rw [List.getElem?_replicate, if_pos below]) within
    rw [List.map_replicate, List.map_replicate, partOffset_replicate (by omega : i ≤ exponent),
      partOffset_replicate (by omega : i ≤ exponent)] at slot
    rw [mergeIndex_lexicographic head below roomRoot, offsets i below]
    exact congrArg Except.ok slot.symm

theorem PowerBasis.exists_binds_interleaved (realizes : child.Realizes numbering element)
    (roomRoot : exponent * numbering.root < Index.limit)
    (roomSize : exponent * numbering.size < Index.limit) (positive : 0 < stride)
    (room : offset + (exponent * numbering.places - 1) * stride < Index.limit) :
    ∃ bound, (PowerBasis.toBasis ⟨⟨blocked, .interleaved⟩, exponent, child⟩).Binds
      (numbering.power ⟨blocked, .interleaved⟩ exponent) element offset stride bound := by
  have two := realizes.placesLe
  obtain ⟨bound, parts⟩ := @BindsParts.exists_interleaved element offset stride child numbering
    exponent realizes positive room
  refine ⟨_, binds_of_parts realizes.sizeNil parts ?_ ?_ roomSize⟩
  · intro i below
    have le := numbering.copy_add_places_le realizes.sizeLe below
    have twice : exponent * 2 ≤ exponent * numbering.places := Nat.mul_le_mul_left _ two
    have first : i * stride ≤ (exponent * numbering.places - 1) * stride :=
      Nat.mul_le_mul_right _ (by omega)
    have step : exponent * stride ≤ (exponent * numbering.places - 1) * stride :=
      Nat.mul_le_mul_right _ (by omega)
    simp only [place, Index.mul, Index.add]
    rw [if_pos (by omega), ok_bind, if_pos (by omega), ok_bind, if_pos (by omega), ok_bind]
  · intro i below j within
    obtain ⟨first, rest, head⟩ := realizes.headed j within
    rw [mergeIndex_interleaved head below roomRoot]
    exact congrArg Except.ok (Numbering.index_interleaved below).symm

theorem PowerBasis.exists_binds (realizes : child.Realizes numbering element)
    (roomRoot : exponent * numbering.root < Index.limit)
    (roomSize : exponent * numbering.size < Index.limit) (positive : 0 < stride)
    (room : offset + (exponent * numbering.places - 1) * stride < Index.limit) :
    ∃ bound, (PowerBasis.toBasis ⟨merging, exponent, child⟩).Binds
      (numbering.power merging exponent) element offset stride bound := by
  obtain ⟨blocked, layout⟩ := merging
  cases layout with
  | lexicographic => exact exists_binds_lexicographic realizes roomRoot roomSize positive room
  | interleaved => exact exists_binds_interleaved realizes roomRoot roomSize positive room

theorem PowerBasis.realizes (realizes : child.Realizes numbering element)
    (roomDofs : max 1 exponent * numbering.dofs < Index.limit)
    (roomPlaces : max 1 exponent * numbering.places < Index.limit) :
    (PowerBasis.toBasis ⟨merging, exponent, child⟩).Realizes (numbering.power merging exponent)
      element := by
  have le : exponent ≤ max 1 exponent := Nat.le_max_right ..
  have one : 1 ≤ max 1 exponent := Nat.le_max_left ..
  have rootRoom : exponent * numbering.root ≤ max 1 exponent * numbering.dofs :=
    Nat.mul_le_mul le realizes.rootLe
  have sizeRoom : exponent * numbering.size ≤ max 1 exponent * numbering.places :=
    Nat.mul_le_mul le realizes.sizeLe
  have placesRoom : exponent * numbering.places ≤ max 1 exponent * numbering.places :=
    Nat.mul_le_mul_right _ le
  have once : 1 * numbering.places ≤ max 1 exponent * numbering.places :=
    Nat.mul_le_mul_right _ one
  have two := realizes.placesLe
  refine {
    createNode := ?_
    sizeNil := size_nil realizes.sizeNil (by omega)
    rootLe := Numbering.root_power_le realizes.rootLe realizes.dofsPos
    dofsPos := Nat.mul_pos one realizes.dofsPos
    sizeLe := (Numbering.size_power ..).trans_le sizeRoom
    placesLe := (by omega : 2 ≤ max 1 exponent * numbering.places)
    headed := Numbering.headed_power realizes.headed
    bind := ?_ }
  · change LocalNode.released (.inner .power (List.replicate exponent child.createNode) 0) = _
    rw [LocalNode.released, LocalNode.releasedAll_eq_map, List.map_replicate, realizes.createNode]
    rfl
  · intro offset stride positive room
    have last : (exponent * numbering.places - 1) * stride ≤
        (max 1 exponent * numbering.places - 1) * stride := Nat.mul_le_mul_right _ (by omega)
    change offset + (max 1 exponent * numbering.places - 1) * stride < Index.limit at room
    exact exists_binds realizes (by omega) (by omega) positive (by omega)

section Sizes

variable {child : Basis} {tree : IndexTree} {merging : Merging} {blocked : Bool} {exponent size : Nat}
  {stem : List Nat}

theorem PowerBasis.blockedSize_eq_ok (sized : child.SizedBy tree) (positive : 0 < exponent)
    (inTree : (IndexTree.joined true (List.replicate exponent tree)).size? stem = some size) :
    blockedSize ⟨merging, exponent, child⟩ stem = .ok size := by
  have count : (IndexTree.joined true (List.replicate exponent tree)).count = exponent := by simp
  cases stem with
  | nil => exact congrArg Except.ok (count.symm.trans (Option.some.inj inTree))
  | cons entry rest =>
      obtain ⟨inRange, inBlock⟩ := IndexTree.of_size?_cons (by rwa [count]) inTree
      rw [count] at inRange
      rw [@IndexTree.block_joined_blocked _ tree entry (by simp [inRange])] at inBlock
      rw [blockedSize, if_pos inRange]
      exact sized rest size inBlock

theorem PowerBasis.blockedInterleavedSize_eq_ok (sized : child.SizedBy tree)
    (branching : 0 < tree.count) (inTree : (tree.graft exponent).size? stem = some size) :
    blockedInterleavedSize ⟨merging, exponent, child⟩ stem = .ok size := by
  obtain ⟨inner, sizedInner, stays, behind⟩ := IndexTree.size?_graft inTree
  rw [blockedInterleavedSize, sized stem inner sizedInner, ok_bind]
  by_cases blocks : 0 < inner
  · rw [if_pos (.inl blocks), stays blocks]
  · cases stem with
    | nil => exact absurd branching (Option.some.inj sizedInner ▸ blocks)
    | cons entry rest =>
        obtain ⟨outer, sizedOuter, rfl⟩ := behind (by omega) (List.cons_ne_nil entry rest)
        rw [if_neg (by simp [blocks]), sized _ outer sizedOuter, ok_bind]

theorem PowerBasis.flatSize_eq_ok {whole : IndexTree} {childFirst : Nat → Nat → Except Fault Nat}
    (sized : child.SizedBy tree) (positive : 0 < exponent)
    (room : exponent * tree.count < Index.limit) (count : whole.count = exponent * tree.count)
    (blocks : ∀ entry < whole.count, ∃ first < tree.count,
      childFirst entry tree.count = .ok first ∧ whole.block entry = tree.block first)
    (inTree : whole.size? stem = some size) :
    flatSize ⟨merging, exponent, child⟩ childFirst stem = .ok size := by
  rw [flatSize, sized [] tree.count rfl, ok_bind]
  cases stem with
  | nil => exact Index.mul_eq_ok_iff.mpr ⟨room, (Option.some.inj inTree).symm.trans count⟩
  | cons entry rest =>
      dsimp only
      rcases Nat.eq_zero_or_pos tree.count with empty | branching
      · rw [IndexTree.size?_of_count_zero (by rw [count, empty, Nat.mul_zero])] at inTree
        rw [if_pos empty]
        exact congrArg Except.ok (Option.some.inj inTree)
      · have nonempty : 0 < whole.count := count ▸ Nat.mul_pos positive branching
        obtain ⟨inRange, inBlock⟩ := IndexTree.of_size?_cons nonempty inTree
        obtain ⟨first, inChild, found, same⟩ := blocks entry inRange
        have inChildTree : tree.size? (first :: rest) = some size := by
          rw [IndexTree.size?_cons inChild, ← same, inBlock]
        rw [if_neg (Nat.ne_of_gt branching), found, ok_bind]
        exact sized _ size inChildTree

theorem PowerBasis.block_replicate {entry : Nat} (positive : 0 < tree.count)
    (inRange : entry < exponent * tree.count) :
    (IndexTree.joined false (List.replicate exponent tree)).block entry =
      tree.block (entry % tree.count) := by
  have inCopies : entry / tree.count < exponent :=
    Nat.div_lt_of_lt_mul (by rwa [Nat.mul_comm] at inRange)
  have found : (List.replicate exponent tree)[entry / tree.count]? = some tree := by
    rw [List.getElem?_replicate, if_pos inCopies]
  have block := IndexTree.flatBlock_partOffset found (Nat.mod_lt entry positive)
  rwa [List.map_replicate, partOffset_replicate (Nat.le_of_lt inCopies), Nat.div_add_mod'] at block

theorem PowerBasis.sizedBy_lexicographic (sized : child.SizedBy tree) (positive : 0 < exponent)
    (room : exponent * tree.count < Index.limit) :
    (PowerBasis.toBasis ⟨⟨blocked, .lexicographic⟩, exponent, child⟩).SizedBy
      (.joined blocked (List.replicate exponent tree)) := by
  intro stem size inTree
  change PowerBasis.size _ _ = _
  cases blocked with
  | true => exact blockedSize_eq_ok sized positive inTree
  | false =>
      have count : (IndexTree.joined false (List.replicate exponent tree)).count =
          exponent * tree.count := by simp
      refine flatSize_eq_ok sized positive room count (fun entry inRange => ?_) inTree
      rw [count] at inRange
      have branching : 0 < tree.count := Nat.pos_of_mul_pos_left (Nat.zero_lt_of_lt inRange)
      exact ⟨entry % tree.count, Nat.mod_lt _ branching, if_neg (Nat.ne_of_gt branching),
        block_replicate branching inRange⟩

theorem PowerBasis.sizedBy_interleaved (sized : child.SizedBy tree) (branching : 0 < tree.count)
    (positive : 0 < exponent) (room : exponent * tree.count < Index.limit) :
    (PowerBasis.toBasis ⟨⟨blocked, .interleaved⟩, exponent, child⟩).SizedBy
      (.interleaved blocked exponent tree) := by
  intro stem size inTree
  change PowerBasis.size _ _ = _
  cases blocked with
  | true => exact blockedInterleavedSize_eq_ok sized branching inTree
  | false =>
      refine flatSize_eq_ok sized positive room rfl (fun entry inRange => ?_) inTree
      exact ⟨entry / exponent, Nat.div_lt_of_lt_mul inRange, if_neg (Nat.ne_of_gt positive), rfl⟩

theorem PowerBasis.sizedBy {numbering : Numbering} (sized : child.SizedBy numbering.tree)
    (branching : 0 < numbering.tree.count) (positive : 0 < exponent)
    (room : exponent * numbering.tree.count < Index.limit) :
    (PowerBasis.toBasis ⟨merging, exponent, child⟩).SizedBy (numbering.power merging exponent).tree := by
  obtain ⟨blocked, layout⟩ := merging
  cases layout with
  | lexicographic =>
      simp only [Numbering.power, Numbering.copies, Numbering.joined, List.map_replicate]
      exact sizedBy_lexicographic sized positive room
  | interleaved => exact sizedBy_interleaved sized branching positive room

theorem PowerBasis.hasDepth {numbering : Numbering} (positive : 0 < exponent)
    (branching : 0 < numbering.tree.count)
    (deep : numbering.tree.HasDepth child.maxIndexLength) :
    (numbering.power merging exponent).tree.HasDepth
      (PowerBasis.toBasis ⟨merging, exponent, child⟩).maxIndexLength := by
  obtain ⟨blocked, layout⟩ := merging
  cases layout with
  | lexicographic =>
      simp only [Numbering.power, Numbering.copies, Numbering.joined, List.map_replicate]
      have copy : numbering.tree ∈ List.replicate exponent numbering.tree :=
        List.mem_replicate.mpr ⟨Nat.ne_of_gt positive, rfl⟩
      refine IndexTree.hasDepth_joined ?_ ?_ ⟨_, copy, deep.attained⟩
      · intro tree inCopies
        rwa [List.eq_of_mem_replicate inCopies]
      · intro tree inCopies
        rw [List.eq_of_mem_replicate inCopies]
        exact deep.bound
  | interleaved => exact IndexTree.hasDepth_interleaved positive branching deep

end Sizes

end DofNumbering
