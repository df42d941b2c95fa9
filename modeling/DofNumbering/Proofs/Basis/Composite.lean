import DofNumbering.Basis.Composite
import DofNumbering.Proofs.IndexTree.Sizes
import DofNumbering.Proofs.Realization

namespace DofNumbering

/-! Composites realize the joined numberings, if their children realize theirs. -/

variable {members : Members} {numbering : Basis → Numbering} {blocked : Bool}
  {element offset stride : Nat}

theorem CompositeBasis.create_eq_ok {basis : CompositeBasis}
    (created : CompositeBasis.create blocked members = .ok basis) : basis = ⟨blocked, members⟩ := by
  unfold CompositeBasis.create at created
  obtain ⟨_, _, equal⟩ := bind_eq_ok_iff.mp created
  cases equal
  rfl

theorem Members.first_mem : members.first ∈ members.toList := List.mem_cons_self

theorem CompositeBasis.create_of_grid {grid : GridView}
    (onGrid : ∀ member ∈ members.toList, member.grid = grid) :
    CompositeBasis.create blocked members = .ok ⟨blocked, members⟩ := by
  have first : members.grid = grid := onGrid _ members.first_mem
  have none : members.foreign? = none := by
    rw [Members.foreign?, List.findIdx?_eq_none_iff]
    intro member inMembers
    rw [onGrid member inMembers, first]
    simp
  rw [create, Members.checkGridViews, none]
  rfl

/-- The member at a position; behind the last one there is none. -/
def Members.at (members : Members) (i : Nat) : Basis := members.toList[i]?.getD members.first

theorem Members.getElem?_toList {i : Nat} (below : i < members.count) :
    members.toList[i]? = some (members.at i) := by
  have found := List.getElem?_eq_getElem (show i < members.toList.length from below)
  rw [Members.at, found, Option.getD_some]

theorem Members.at_mem {i : Nat} (below : i < members.count) : members.at i ∈ members.toList :=
  List.mem_of_getElem? (members.getElem?_toList below)

theorem Members.mem_of_member {i : Nat} {member : Basis} (found : members.member i = .ok member) :
    member ∈ members.toList := by
  unfold Members.member at found
  split at found
  · rename_i basis inMembers
    exact Except.ok.inj found ▸ List.mem_of_getElem? inMembers
  · contradiction

theorem Members.member_eq_ok {i : Nat} (below : i < members.count) :
    members.member i = .ok (members.at i) := by
  simp only [Members.member, members.getElem?_toList below]

theorem Members.map_range_at {α : Type} (value : Basis → α) :
    (List.range members.count).map (fun i => value (members.at i)) = members.toList.map value := by
  refine List.ext_getElem? (fun i => ?_)
  by_cases below : i < members.count
  · rw [List.getElem?_map, List.getElem?_map, members.getElem?_toList below,
      List.getElem?_range below]
    rfl
  · have absent : members.toList.length ≤ i := Nat.le_of_not_lt below
    simp [absent, Nat.le_of_not_lt below]

theorem Members.getElem?_measures {α : Type} (numbering : Basis → Numbering)
    (value : Numbering → α) {i : Nat} (below : i < members.count) :
    ((members.toList.map numbering).map value)[i]? = some (value (numbering (members.at i))) := by
  simp [members.getElem?_toList below]

/-- The numbers of local degrees of freedom of the members. -/
def Members.localSizes (members : Members) (numbering : Basis → Numbering) : List Nat :=
  (members.toList.map numbering).map Numbering.size

theorem Members.length_localSizes : (members.localSizes numbering).length = members.count := by
  rw [localSizes, List.length_map, List.length_map, count]

/-- A member begins at least its own places before the end. -/
theorem Members.partOffset_add_places_le
    (sizeLe : ∀ member ∈ members.toList, (numbering member).size ≤ (numbering member).places)
    {i : Nat} (below : i < members.count) :
    partOffset (members.localSizes numbering) i + (numbering (members.at i)).places ≤
      ((members.toList.map numbering).map Numbering.places).sum := by
  have inPlaces := partOffset_add_le_sum (members.getElem?_measures numbering Numbering.places below)
  have before : partOffset (members.localSizes numbering) i ≤
      partOffset ((members.toList.map numbering).map Numbering.places) i := by
    rw [localSizes, partOffset_map, partOffset_map]
    refine List.sum_le_sum (fun part inTake => ?_)
    obtain ⟨member, inMembers, rfl⟩ := List.mem_map.mp (List.mem_of_mem_take inTake)
    exact sizeLe member inMembers
  omega

theorem CompositeBasis.rootOffset_eq_ok
    (sizeNil : ∀ member ∈ members.toList, member.size [] = .ok (numbering member).root)
    (room : ((members.toList.map numbering).map Numbering.root).sum < Index.limit) (i : Nat) :
    rootOffset ⟨blocked, members⟩ i =
      .ok (partOffset ((members.toList.map numbering).map Numbering.root) i) := by
  rw [partOffset_map, ← List.map_take, List.map_map]
  refine Index.sumOver_eq_ok (fun member inTake => sizeNil member (List.mem_of_mem_take inTake)) ?_
  have le : ((members.toList.take i).map (Numbering.root ∘ numbering)).sum ≤
      (members.toList.map (Numbering.root ∘ numbering)).sum := by
    rw [List.map_take]
    exact (List.take_sublist _ _).sum_le_sum (fun _ _ => Nat.zero_le _)
  rw [List.map_map] at room
  exact Nat.lt_of_le_of_lt le room

theorem CompositeBasis.exists_merge
    (sizeNil : ∀ member ∈ members.toList, member.size [] = .ok (numbering member).root)
    (room : ((members.toList.map numbering).map Numbering.root).sum < Index.limit) {i : Nat}
    (below : i < members.count) :
    ∃ change, merge ⟨blocked, members⟩ i = .ok change ∧ ∀ first rest,
      first < (numbering (members.at i)).root → change (first :: rest) =
        .ok (.joined blocked (partOffset ((members.toList.map numbering).map Numbering.root) i) i
          (first :: rest)) := by
  cases blocked with
  | true => exact ⟨_, rfl, fun _ _ _ => rfl⟩
  | false =>
      refine ⟨MultiIndex.addToEntry 0
        (partOffset ((members.toList.map numbering).map Numbering.root) i), ?_,
        fun first rest inRange => ?_⟩
      · rw [merge, if_neg (by simp), rootOffset_eq_ok sizeNil room, ok_bind]
      · have le := partOffset_add_le_sum (members.getElem?_measures numbering Numbering.root below)
        simp only [MultiIndex.addToEntry, Index.entry, List.getElem?_cons_zero, ok_bind, Index.add]
        rw [if_pos (by omega), ok_bind, Nat.add_comm first]
        rfl

/-- A composite binds its members to their parts of its own places. -/
theorem CompositeBasis.binds_of_parts {childOffset childStride : Nat → Nat}
    {bound : Nat → LocalNode}
    (realizes : ∀ member ∈ members.toList, member.Realizes (numbering member) element)
    (roomRoot : ((members.toList.map numbering).map Numbering.root).sum < Index.limit)
    (roomSize : (members.localSizes numbering).sum < Index.limit)
    (parts : BindsParts members.at (fun i => numbering (members.at i))
      (members.localSizes numbering) (fun i j => partOffset (members.localSizes numbering) i + j)
      element offset stride childOffset childStride bound)
    (placed : ∀ i < members.count, place offset stride i
      (partOffset (members.localSizes numbering) i) = .ok (childOffset i, childStride i)) :
    (CompositeBasis.toBasis ⟨blocked, members⟩).Binds
      (.joined blocked (members.toList.map numbering)) element offset stride
      (.inner .composite ((List.range members.count).map bound)
        (members.localSizes numbering).sum) := by
  have length := @Members.length_localSizes members numbering
  have listed := parts.listed .composite
  have released := parts.released .composite
  rw [length] at listed released
  refine { bindNode := ?_, released := ?_, size := rfl, listed, fills := ?_ }
  · intro node shape
    obtain ⟨children, size, rfl, releasedChildren⟩ := LocalNode.of_released_inner shape
    have all := @parts.bindChildren _ _ _ _ _ _ _ _ _ _ (place offset stride)
      (fun child node offset stride => do
        let member ← members.member child
        member.bindNode node element offset stride) children
      (by rw [releasedChildren, length, Members.map_range_at])
      (by rwa [length])
      (fun i below node => by rw [members.member_eq_ok (length ▸ below), ok_bind])
      roomSize
    rw [length] at all
    change CompositeBasis.bindNode _ _ _ _ _ = _
    rw [CompositeBasis.bindNode, LocalNode.expectComposite, ok_bind, all, ok_bind]
  · rw [released, Members.map_range_at]
    rfl
  · rw [← length]
    refine parts.fills (fun i below => ?_) (fun i below => ?_)
    · rw [members.member_eq_ok (length ▸ below)]
      rfl
    · rw [length] at below
      obtain ⟨change, merged, changes⟩ := @exists_merge members numbering blocked
        (fun member inMembers => (realizes member inMembers).sizeNil) roomRoot i below
      refine ⟨change, merged, fun j within => ?_⟩
      obtain ⟨first, rest, equal, inRange⟩ := (realizes _ (members.at_mem below)).headed j within
      have found : (members.toList.map numbering)[i]? = some (numbering (members.at i)) := by
        simp [members.getElem?_toList below]
      have slot := @Numbering.index_joined blocked _ _ element j i found within
      rw [equal] at slot ⊢
      exact (changes first rest inRange).trans (congrArg Except.ok slot.symm)

theorem CompositeBasis.exists_binds
    (realizes : ∀ member ∈ members.toList, member.Realizes (numbering member) element)
    (roomRoot : ((members.toList.map numbering).map Numbering.root).sum < Index.limit)
    (roomSize : (members.localSizes numbering).sum < Index.limit) (positive : 0 < stride)
    (room : offset + (((members.toList.map numbering).map Numbering.places).sum - 1) * stride <
      Index.limit) :
    ∃ bound, (CompositeBasis.toBasis ⟨blocked, members⟩).Binds
      (.joined blocked (members.toList.map numbering)) element offset stride bound := by
  have length := @Members.length_localSizes members numbering
  have realizesAt := fun {i : Nat} (below : i < members.count) => realizes _ (members.at_mem below)
  have roomPart : ∀ i < members.count, offset + (partOffset (members.localSizes numbering) i +
      (numbering (members.at i)).places - 1) * stride < Index.limit := by
    intro i below
    have le := Members.partOffset_add_places_le
      (fun member inMembers => (realizes member inMembers).sizeLe) below
    have last := Nat.mul_le_mul_right stride (Nat.sub_le_sub_right le 1)
    omega
  obtain ⟨bound, parts⟩ := @BindsParts.exists_consecutive members.at
    (fun i => numbering (members.at i)) (members.localSizes numbering) element offset stride
    (fun i size found => by
      have below := length ▸ (List.getElem?_eq_some_iff.mp found).1
      exact Option.some.inj ((members.getElem?_measures numbering Numbering.size below).symm.trans found))
    (fun i below => realizesAt (length ▸ below)) positive
    (fun i below => roomPart i (length ▸ below))
  refine ⟨_, binds_of_parts realizes roomRoot roomSize parts (fun i below => ?_)⟩
  have two := (realizesAt below).placesLe
  have enough := roomPart i below
  have start : partOffset (members.localSizes numbering) i * stride ≤
      (partOffset (members.localSizes numbering) i + (numbering (members.at i)).places - 1) *
        stride := Nat.mul_le_mul_right _ (by omega)
  simp only [place, Index.mul, Index.add]
  rw [if_pos (by omega), ok_bind, if_pos (by omega), ok_bind]

theorem CompositeBasis.size_nil
    (sizeNil : ∀ member ∈ members.toList, member.size [] = .ok (numbering member).root)
    (room : ((members.toList.map numbering).map Numbering.root).sum < Index.limit) :
    CompositeBasis.size ⟨blocked, members⟩ [] =
      .ok (Numbering.joined blocked (members.toList.map numbering)).root := by
  cases blocked with
  | true =>
      change Except.ok members.toList.length = .ok (members.toList.map numbering).length
      rw [List.length_map]
  | false =>
      change Index.sumOver (fun member => member.size []) members.toList =
        .ok ((members.toList.map numbering).map Numbering.root).sum
      rw [List.map_map] at room ⊢
      exact Index.sumOver_eq_ok sizeNil room

theorem CompositeBasis.createNode_released
    (released : ∀ member ∈ members.toList, member.createNode.released = member.createNode) :
    (CompositeBasis.toBasis ⟨blocked, members⟩).createNode.released =
      (CompositeBasis.toBasis ⟨blocked, members⟩).createNode := by
  change LocalNode.released (.inner .composite (members.toList.map Basis.createNode) 0) = _
  rw [LocalNode.released, LocalNode.releasedAll_eq_map, List.map_map]
  have same : members.toList.map (LocalNode.released ∘ Basis.createNode) =
      members.toList.map Basis.createNode := List.map_congr_left released
  rw [same]
  rfl

theorem CompositeBasis.realizes
    (realizes : ∀ member ∈ members.toList, member.Realizes (numbering member) element)
    (roomDofs : (Numbering.joined blocked (members.toList.map numbering)).dofs < Index.limit)
    (roomPlaces : (Numbering.joined blocked (members.toList.map numbering)).places < Index.limit) :
    (CompositeBasis.toBasis ⟨blocked, members⟩).Realizes
      (.joined blocked (members.toList.map numbering)) element := by
  let parts := members.toList.map numbering
  have each : ∀ part ∈ parts, part.root ≤ part.dofs ∧ 0 < part.dofs ∧ part.size ≤ part.places ∧
      part.Headed element := by
    intro part inParts
    obtain ⟨member, inMembers, rfl⟩ := List.mem_map.mp inParts
    have realized := realizes member inMembers
    exact ⟨realized.rootLe, realized.dofsPos, realized.sizeLe, realized.headed⟩
  have first := realizes _ members.first_mem
  have firstPart : numbering members.first ∈ parts := List.mem_map_of_mem members.first_mem
  have rootSum : (parts.map Numbering.root).sum ≤ (parts.map Numbering.dofs).sum :=
    List.sum_le_sum (fun part inParts => (each part inParts).1)
  have sizeSum : (parts.map Numbering.size).sum ≤ (parts.map Numbering.places).sum :=
    List.sum_le_sum (fun part inParts => (each part inParts).2.2.1)
  have roomRoot := Nat.lt_of_le_of_lt rootSum roomDofs
  exact {
    createNode := createNode_released (fun member inMembers => (realizes member inMembers).createNode)
    sizeNil := size_nil (fun member inMembers => (realizes member inMembers).sizeNil) roomRoot
    rootLe := Numbering.root_joined_le (fun part inParts => (each part inParts).1)
      (fun part inParts => (each part inParts).2.1)
    dofsPos := Nat.lt_of_lt_of_le first.dofsPos (Numbering.dofs_le_joined firstPart)
    sizeLe := sizeSum
    placesLe := first.placesLe.trans (Numbering.places_le_joined firstPart)
    headed := Numbering.headed_joined (fun part inParts => (each part inParts).2.2.2)
    bind := fun offset stride positive room =>
      exists_binds realizes roomRoot (Nat.lt_of_le_of_lt sizeSum roomPlaces) positive room }

section Sizes

variable {members : Members} {tree : Basis → IndexTree} {blocked : Bool}

/-- The size after a first entry is found in the block of the member that the entry
belongs to. -/
theorem CompositeBasis.flatSize_eq_ok {parts : List Basis} {holds : IndexTree → Prop}
    {entry offset size : Nat} {rest : List Nat}
    (sizeNil : ∀ member ∈ parts, member.size [] = .ok (tree member).count)
    (sized : ∀ member ∈ parts, ∀ first < (tree member).count, holds ((tree member).block first) →
      member.size (first :: rest) = .ok size)
    (room : offset + ((parts.map tree).map IndexTree.count).sum < Index.limit)
    (behind : offset ≤ entry)
    (inRange : entry - offset < ((parts.map tree).map IndexTree.count).sum)
    (inBlock : holds (IndexTree.flatBlock (parts.map tree) (entry - offset))) :
    flatSize entry rest offset parts = .ok size := by
  induction parts generalizing offset with
  | nil => exact absurd inRange (Nat.not_lt_zero _)
  | cons first others ih =>
      rw [List.map_cons, List.map_cons, List.sum_cons] at room inRange
      have past : Index.add offset (tree first).count = .ok (offset + (tree first).count) :=
        Index.add_eq_ok_iff.mpr ⟨by omega, rfl⟩
      rw [flatSize, sizeNil first (by simp), ok_bind, past, ok_bind]
      rw [List.map_cons, IndexTree.flatBlock] at inBlock
      by_cases inFirst : entry < offset + (tree first).count
      · have within : entry - offset < (tree first).count := by omega
        rw [if_pos within] at inBlock
        rw [if_pos inFirst]
        exact sized first (by simp) _ within inBlock
      · rw [if_neg (by omega), Nat.sub_sub] at inBlock
        rw [if_neg inFirst]
        exact ih (fun member inOthers => sizeNil member (by simp [inOthers]))
          (fun member inOthers => sized member (by simp [inOthers])) (by omega) (by omega)
          (by omega) inBlock

/-- No first entry belongs to members without values. -/
theorem CompositeBasis.flatSize_eq_zero {parts : List Basis} {entry : Nat} {rest : List Nat}
    (sizeNil : ∀ member ∈ parts, member.size [] = .ok 0) : flatSize entry rest 0 parts = .ok 0 := by
  induction parts with
  | nil => rfl
  | cons first others ih =>
      rw [flatSize, sizeNil first (by simp), ok_bind]
      exact ih (fun member inOthers => sizeNil member (by simp [inOthers]))

/-- If the members have as many entries as their trees say, so has the composite. -/
theorem CompositeBasis.follows
    (follows : ∀ member ∈ members.toList, (tree member).Follows member.size)
    (room : ((members.toList.map tree).map IndexTree.count).sum < Index.limit) :
    (IndexTree.joined blocked (members.toList.map tree)).Follows
      (CompositeBasis.toBasis ⟨blocked, members⟩).size := by
  have sizeNil := fun member inMembers => follows member inMembers [] (tree member) rfl
  cases blocked with
  | true =>
      refine IndexTree.follows_node (congrArg Except.ok (List.length_map ..).symm)
        (fun entry inRange stem sub found => ?_)
      have below : entry < members.count := by rwa [List.length_map] at inRange
      rw [List.getElem?_map, members.getElem?_toList below] at found
      change CompositeBasis.size ⟨true, members⟩ (entry :: stem) = _
      simp only [CompositeBasis.size, if_pos below, members.member_eq_ok below, ok_bind]
      exact follows _ (members.at_mem below) stem sub found
  | false =>
      refine IndexTree.follows_node ?_ (fun entry inRange stem sub found => ?_)
      · rw [List.map_map] at room ⊢
        exact Index.sumOver_eq_ok sizeNil room
      · refine @flatSize_eq_ok tree _ (fun block => block.at? stem = some sub) entry 0 _ stem sizeNil
          (fun member inMembers first within inBlock => ?_) (by simpa using room) (Nat.zero_le _)
          inRange found
        refine follows member inMembers (first :: stem) sub ?_
        rwa [IndexTree.at?, if_pos within]

theorem CompositeBasis.sizedBy
    (sized : ∀ member ∈ members.toList, member.SizedBy (tree member))
    (room : ((members.toList.map tree).map IndexTree.count).sum < Index.limit) :
    (CompositeBasis.toBasis ⟨blocked, members⟩).SizedBy
      (.joined blocked (members.toList.map tree)) := by
  intro stem size inTree
  change CompositeBasis.size _ _ = _
  have sizeNil := fun member inMembers => sized member inMembers [] _ rfl
  cases blocked with
  | true =>
      have count : (IndexTree.joined true (members.toList.map tree)).count = members.count := by
        simp [Members.count]
      cases stem with
      | nil => exact congrArg Except.ok (count.symm.trans (Option.some.inj inTree))
      | cons entry rest =>
          have nonempty : 0 < members.count := Nat.succ_pos _
          obtain ⟨inRange, inBlock⟩ := IndexTree.of_size?_cons (count ▸ nonempty) inTree
          rw [count] at inRange
          have found : (members.toList.map tree)[entry]? = some (tree (members.at entry)) := by
            rw [List.getElem?_map, members.getElem?_toList inRange]
            rfl
          rw [IndexTree.block_joined_blocked found] at inBlock
          simp only [CompositeBasis.size, if_pos inRange, members.member_eq_ok inRange, ok_bind]
          exact sized _ (members.at_mem inRange) rest size inBlock
  | false =>
      cases stem with
      | nil =>
          have summed : (IndexTree.joined false (members.toList.map tree)).count = size :=
            Option.some.inj inTree
          rw [IndexTree.count_joined_flat] at summed
          rw [List.map_map] at room summed
          subst summed
          exact Index.sumOver_eq_ok sizeNil room
      | cons entry rest =>
          rcases Nat.eq_zero_or_pos (IndexTree.joined false (members.toList.map tree)).count with
            empty | positive
          · rw [IndexTree.size?_of_count_zero empty] at inTree
            obtain rfl := Option.some.inj inTree
            refine flatSize_eq_zero (fun member inMembers => (sizeNil member inMembers).trans ?_)
            have le := List.le_sum_of_mem
              (List.mem_map_of_mem (f := IndexTree.count) (List.mem_map_of_mem (f := tree) inMembers))
            rw [IndexTree.count_joined_flat] at empty
            exact congrArg Except.ok (Nat.le_zero.mp (empty ▸ le))
          · obtain ⟨inRange, inBlock⟩ := IndexTree.of_size?_cons positive inTree
            refine @flatSize_eq_ok tree _ (fun block => block.size? rest = some size) entry 0 _ rest
              sizeNil (fun member inMembers first within sizedRest => ?_) (by simpa using room)
              (Nat.zero_le _) inRange inBlock
            exact sized member inMembers _ size ((IndexTree.size?_cons within).trans sizedRest)

theorem foldl_max_spec (values : List Nat) (start : Nat) :
    start ≤ values.foldl max start ∧ (∀ value ∈ values, value ≤ values.foldl max start) ∧
      (values.foldl max start = start ∨ values.foldl max start ∈ values) := by
  induction values generalizing start with
  | nil => simp
  | cons first rest ih =>
      obtain ⟨least, bound, attained⟩ := ih (max start first)
      rw [List.foldl_cons]
      refine ⟨by omega, fun value inList => ?_, ?_⟩
      · rcases List.mem_cons.mp inList with rfl | inRest
        · omega
        · exact bound value inRest
      · rcases attained with same | inRest
        · rw [same, List.mem_cons]
          omega
        · exact .inr (List.mem_cons_of_mem _ inRest)

theorem Members.maxIndexLength_le {member : Basis} (inMembers : member ∈ members.toList) :
    member.maxIndexLength ≤ (members.toList.map Basis.maxIndexLength).foldl max 0 :=
  (foldl_max_spec _ 0).2.1 _ (List.mem_map_of_mem inMembers)

theorem CompositeBasis.length_le_maxIndexLength
    (bound : ∀ member ∈ members.toList, ∀ index, (tree member).Whole index →
      index.length ≤ member.maxIndexLength)
    {index : MultiIndex}
    (whole : (IndexTree.joined blocked (members.toList.map tree)).Whole index) :
    index.length ≤ (CompositeBasis.toBasis ⟨blocked, members⟩).maxIndexLength := by
  refine IndexTree.length_le_of_whole_joined (fun sub inTrees index whole => ?_) whole
  obtain ⟨member, inMembers, rfl⟩ := List.mem_map.mp inTrees
  exact (bound member inMembers index whole).trans (Members.maxIndexLength_le inMembers)

theorem CompositeBasis.hasDepth
    (deep : ∀ member ∈ members.toList, (tree member).HasDepth member.maxIndexLength)
    (branching : ∀ member ∈ members.toList, 0 < (tree member).count) :
    (IndexTree.joined blocked (members.toList.map tree)).HasDepth
      (CompositeBasis.toBasis ⟨blocked, members⟩).maxIndexLength := by
  obtain ⟨-, -, attained⟩ := foldl_max_spec (members.toList.map Basis.maxIndexLength) 0
  refine IndexTree.hasDepth_joined ?_ ?_ ?_
  · intro sub inTrees
    obtain ⟨member, inMembers, rfl⟩ := List.mem_map.mp inTrees
    exact branching member inMembers
  · intro sub inTrees index whole
    obtain ⟨member, inMembers, rfl⟩ := List.mem_map.mp inTrees
    exact ((deep member inMembers).bound index whole).trans (Members.maxIndexLength_le inMembers)
  · obtain ⟨member, inMembers, deepest⟩ : ∃ member ∈ members.toList, member.maxIndexLength =
        (members.toList.map Basis.maxIndexLength).foldl max 0 := by
      rcases attained with flat | inLengths
      · have le := Members.maxIndexLength_le members.first_mem
        exact ⟨members.first, members.first_mem, by omega⟩
      · exact List.mem_map.mp inLengths
    obtain ⟨index, whole, length⟩ := (deep member inMembers).attained
    exact ⟨_, List.mem_map_of_mem inMembers, index, whole, length.trans deepest⟩

end Sizes

end DofNumbering
