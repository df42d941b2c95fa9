import DofNumbering.Proofs.Sizes.Continuation

namespace DofNumbering

/-! Stems that leave the tree of a basis although the basis counts something after them.

If each power has copies, every basis whose description is not faithful has such a stem.
It leaves the tree where a blocked interleaved power takes an entry out of range for the last
one of an index, or where a flat lexicographic power wraps its first entry.  The nodes
above pass stems on as they pass on indices.
-/

/-- What follows the stem in the basis and its tree is what follows the other stem in the part. -/
structure Basis.PassesTo (basis : Basis) (numbering : Numbering) (stem : List Nat) (part : Basis)
    (partNumbering : Numbering) (partStem : List Nat) : Prop where
  size : ∀ rest, basis.size (stem ++ rest) = part.size (partStem ++ rest)
  at? : ∀ rest, numbering.tree.at? (stem ++ rest) = partNumbering.tree.at? (partStem ++ rest)
  dofsLe : partNumbering.dofs ≤ numbering.dofs
  small : ∀ entry ∈ stem, entry < 2 * numbering.dofs

/-- The stem leaves the tree, but the basis counts something after it. -/
structure Basis.Stray (basis : Basis) (numbering : Numbering) (stem : List Nat) : Prop where
  small : ∀ entry ∈ stem, entry < 2 * numbering.dofs
  outside : numbering.tree.at? stem = none
  counted : ∃ size, basis.size stem = .ok size ∧ 0 < size

/-- Indices continue the stem, and there is a size also for the next entry that they do not have. -/
def Basis.Overruns (basis : Basis) (numbering : Numbering) (stem : List Nat) : Prop :=
  ∃ sub, numbering.tree.at? stem = some sub ∧ 0 < sub.count ∧
    ∃ size, basis.size (stem ++ [sub.count]) = .ok size

variable {grid : GridView} {basis child part : Basis} {numbering partNumbering : Numbering}
  {exponent : Nat} {merging : Merging} {blocked checked : Bool} {members : Members}
  {stem partStem rest : List Nat}

theorem Basis.PassesTo.stray (passes : basis.PassesTo numbering stem part partNumbering partStem)
    (stray : part.Stray partNumbering (partStem ++ rest)) : basis.Stray numbering (stem ++ rest) where
  small entry inStem := by
    rcases List.mem_append.mp inStem with inStem | inRest
    · exact passes.small entry inStem
    · have below := stray.small entry (List.mem_append_right _ inRest)
      have le := passes.dofsLe
      omega
  outside := (passes.at? rest).trans stray.outside
  counted := by
    obtain ⟨size, sized, positive⟩ := stray.counted
    exact ⟨size, (passes.size rest).trans sized, positive⟩

theorem Basis.PassesTo.overruns
    (passes : basis.PassesTo numbering stem part partNumbering partStem)
    (overruns : part.Overruns partNumbering (partStem ++ rest)) :
    basis.Overruns numbering (stem ++ rest) := by
  obtain ⟨sub, found, branching, size, sized⟩ := overruns
  rw [List.append_assoc] at sized
  refine ⟨sub, (passes.at? rest).trans found, branching, size, ?_⟩
  rw [List.append_assoc, passes.size, sized]

section Powers

variable (copies : 0 < exponent) (rooted : child.Rooted numbering)

include copies rooted

theorem PowerBasis.passesTo_blocked :
    (PowerBasis.toBasis ⟨⟨true, .lexicographic⟩, exponent, child⟩).PassesTo
      (numbering.power ⟨true, .lexicographic⟩ exponent) [0] child numbering [] where
  size rest := if_pos copies
  at? rest := IndexTree.at?_joined_blocked (by simp [copies])
  dofsLe := Numbering.dofs_le_power
  small entry inStem := by
    obtain rfl := List.mem_singleton.mp inStem
    have positive : 0 < (numbering.power ⟨true, .lexicographic⟩ exponent).dofs :=
      rooted.dofsPos.trans_le Numbering.dofs_le_power
    omega

theorem PowerBasis.passesTo_flatLexicographic {first : Nat}
    (counted : numbering.tree.count = numbering.root) (inRange : first < numbering.root) :
    (PowerBasis.toBasis ⟨⟨false, .lexicographic⟩, exponent, child⟩).PassesTo
      (numbering.power ⟨false, .lexicographic⟩ exponent) [first] child numbering [first] where
  size rest := by
    have positive := Nat.zero_lt_of_lt inRange
    refine flatSize_cons rooted positive ((if_neg (Nat.ne_of_gt positive)).trans ?_) rest
    rw [Nat.mod_eq_of_lt inRange]
  at? rest := by
    have found : ((List.replicate exponent numbering).map Numbering.tree)[0]? =
        some numbering.tree := by simp [copies]
    have inBlock := @IndexTree.at?_joined_flat _ _ _ first rest found (counted ▸ inRange)
    rwa [partOffset_zero, Nat.zero_add] at inBlock
  dofsLe := Numbering.dofs_le_power
  small entry inStem := by
    obtain rfl := List.mem_singleton.mp inStem
    have rootLe := rooted.rootLe
    have dofsLe : numbering.dofs ≤ (numbering.power ⟨false, .lexicographic⟩ exponent).dofs :=
      Numbering.dofs_le_power
    omega

theorem PowerBasis.passesTo_flatInterleaved {first : Nat} (positive : 0 < numbering.root)
    (small : first < 2 * numbering.dofs) :
    (PowerBasis.toBasis ⟨⟨false, .interleaved⟩, exponent, child⟩).PassesTo
      (numbering.power ⟨false, .interleaved⟩ exponent) [first * exponent] child numbering
      [first] where
  size rest := by
    have divided : Index.div (first * exponent) exponent = .ok first := by
      rw [Index.div, if_neg (Nat.ne_of_gt copies), Nat.mul_div_cancel first copies]
    exact @flatSize_cons _ _ _ _ (fun first _ => Index.div first exponent) _ _ rooted positive
      divided rest
  at? rest := IndexTree.at?_interleaved_flat copies
  dofsLe := Numbering.dofs_le_power
  small entry inStem := by
    obtain rfl := List.mem_singleton.mp inStem
    change first * exponent < 2 * (max 1 exponent * numbering.dofs)
    rw [Nat.max_eq_right copies, Nat.mul_comm exponent, ← Nat.mul_assoc]
    exact Nat.mul_lt_mul_of_pos_right small copies

end Powers

section Composites

variable {numbering : Basis → Numbering} {member : Basis} {numElements : Nat}

theorem CompositeBasis.exists_passesTo_blocked
    (rootedComposite : (CompositeBasis.toBasis ⟨true, members⟩).Rooted
      (.joined true (members.toList.map numbering)))
    (inMembers : member ∈ members.toList) :
    ∃ entry < (Numbering.joined true (members.toList.map numbering)).root,
      (CompositeBasis.toBasis ⟨true, members⟩).PassesTo (.joined true (members.toList.map numbering))
        [entry] member (numbering member) [] := by
  obtain ⟨i, found⟩ := List.mem_iff_getElem?.mp inMembers
  have inRange : i < members.count := (List.getElem?_eq_some_iff.mp found).1
  obtain rfl : members.at i = member := Option.some.inj ((members.getElem?_toList inRange).symm.trans found)
  have inRoot : i < (members.toList.map numbering).length := by rwa [List.length_map]
  have rootLe : (members.toList.map numbering).length ≤ _ := rootedComposite.rootLe
  refine ⟨i, inRoot, fun rest => size_blocked_cons inRange rest,
    fun rest => IndexTree.at?_joined_blocked (by simp [found]),
    Numbering.dofs_le_joined (List.mem_map_of_mem inMembers), fun entry inStem => ?_⟩
  obtain rfl := List.mem_singleton.mp inStem
  omega

theorem CompositeBasis.exists_passesTo_flat
    (rooted : ∀ member ∈ members.toList, member.Rooted (numbering member))
    (rootedComposite : (CompositeBasis.toBasis ⟨false, members⟩).Rooted
      (.joined false (members.toList.map numbering)))
    (room : ((members.toList.map numbering).map Numbering.root).sum < Index.limit)
    (covers : ∀ member ∈ members.toList, (numbering member).Covers numElements)
    (inMembers : member ∈ members.toList) {first : Nat} (inMember : first < (numbering member).root) :
    ∃ entry < (Numbering.joined false (members.toList.map numbering)).root,
      (CompositeBasis.toBasis ⟨false, members⟩).PassesTo
        (.joined false (members.toList.map numbering)) [entry] member (numbering member) [first] := by
  obtain ⟨i, found⟩ := List.mem_iff_getElem?.mp inMembers
  have foundRoot : ((members.toList.map numbering).map Numbering.root)[i]? =
      some (numbering member).root := by simp [found]
  have foundTree : ((members.toList.map numbering).map Numbering.tree)[i]? =
      some (numbering member).tree := by simp [found]
  have tiling := tiling_consecutive ((members.toList.map numbering).map Numbering.root)
  have inRoot := tiling.lt_sum foundRoot inMember
  have rootLe : ((members.toList.map numbering).map Numbering.root).sum ≤ _ := rootedComposite.rootLe
  refine ⟨_, inRoot, fun rest => ?_, fun rest => ?_,
    Numbering.dofs_le_joined (List.mem_map_of_mem inMembers), fun entry inStem => ?_⟩
  · change flatSize _ rest 0 members.toList = _
    rcases flatSize_cases rooted
        (partOffset ((members.toList.map numbering).map Numbering.root) i + first) 0
        (by omega) (Nat.zero_le _) with
      ⟨outside, -⟩ | ⟨i', member', found', inner, below, equal, passes⟩
    · omega
    · rw [Nat.zero_add] at equal
      obtain ⟨rfl, rfl⟩ := tiling.injective foundRoot inMember
        (by simp [found'] : _ = some (numbering member').root) below equal
      obtain rfl := Option.some.inj (found.symm.trans found')
      exact passes rest
  · have inBlock := @IndexTree.at?_joined_flat _ _ _ first rest foundTree
      ((covers member inMembers).count ▸ inMember)
    rwa [Numbering.tree_joined_root (List.forall_mem_map.mpr covers)] at inBlock
  · obtain rfl := List.mem_singleton.mp inStem
    omega

end Composites

theorem Numbered.not_divides (numbered : Numbered grid 1 basis numbering) :
    basis.description.divides = false := by
  induction numbered with
  | lagrange _ => rfl
  | @power _ _ _ exponent copies _ ih =>
      simp [PowerBasis.toBasis, Description.divides, ih, Nat.ne_of_gt copies]
  | @composite blocked members _ _ created _ ih =>
      cases CompositeBasis.create_eq_ok created
      refine Bool.eq_false_iff.mpr (fun divides => ?_)
      obtain ⟨_, inDescriptions, divides⟩ := Description.anyDivides_iff.mp divides
      obtain ⟨member, inMembers, rfl⟩ := List.mem_map.mp inDescriptions
      exact absurd divides (ih member inMembers ▸ Bool.false_ne_true)
  | tagged _ _ ih => exact ih

section Strays

variable (covered : grid.Covered) (nonempty : 0 < grid.size 0)

include covered nonempty

/-- A flat basis has a size behind each first entry, also behind one out of range. -/
theorem Numbered.size_cons_of_flat (numbered : Numbered grid 1 basis numbering)
    (room : numbering.dofs < Index.limit) (flat : basis.description.isFlat = true)
    (first : Nat) (rest : List Nat) : basis.size (first :: rest) = .ok 0 := by
  have answers := numbered.answers (covered.vertices_pos nonempty) room
  have answer := answers (first :: rest)
  cases sized : basis.size (first :: rest) with
  | ok size =>
      rw [answers.eq_zero_of_flat (numbered.maxIndexLength_of_isFlat flat) sized]
  | error fault =>
      rw [sized] at answer
      cases answer with
      | fault permitted =>
          exact absurd permitted (Description.not_mayFail flat numbered.not_divides)

theorem Numbered.overruns_nil (numbered : Numbered grid 1 basis numbering)
    (room : numbering.dofs < Index.limit) (flat : basis.description.isFlat = true) :
    basis.Overruns numbering [] :=
  ⟨numbering.tree, rfl, (numbered.covers covered nonempty).branching, 0,
    numbered.size_cons_of_flat covered nonempty room flat _ []⟩

omit covered nonempty in
theorem Basis.Overruns.first_lt {numElements first : Nat}
    (overruns : basis.Overruns numbering (first :: rest)) (covers : numbering.Covers numElements) :
    first < numbering.root := by
  obtain ⟨sub, found, -⟩ := overruns
  rw [← covers.count]
  by_contra outside
  rw [IndexTree.at?, if_neg outside] at found
  contradiction

theorem Numbered.exists_overruns_blockedInterleaved (numbered : Numbered grid 1 child numbering)
    (room : numbering.dofs < Index.limit) (copies : 0 < exponent) : ∃ first rest,
      (PowerBasis.toBasis ⟨⟨true, .interleaved⟩, exponent, child⟩).Overruns
        (numbering.power ⟨true, .interleaved⟩ exponent) (first :: rest) := by
  have sizedBy := (numbered.describes covered nonempty room).sizedBy
  obtain ⟨index, whole⟩ := numbering.tree.exists_whole
  obtain ⟨first, rest, rfl, -⟩ :=
    IndexTree.exists_cons_of_whole (numbered.covers covered nonempty).branching whole
  obtain ⟨sub, found, empty⟩ := IndexTree.whole_iff_at?.mp whole
  have behind : ∀ entry, child.size ((first :: rest) ++ [entry]) = .ok 0 := fun entry =>
    sizedBy _ _ ((IndexTree.size?_append found).trans (IndexTree.size?_of_count_zero empty _))
  have after : child.size (first :: rest) = .ok 0 :=
    sizedBy _ _ ((IndexTree.size?_of_at? found).trans (congrArg some empty))
  refine ⟨first, rest, sub.graft exponent, IndexTree.at?_graft found, ?_, 0, ?_⟩
  · rw [IndexTree.graft_of_count_zero empty]
    exact copies
  · change PowerBasis.blockedInterleavedSize _ _ = _
    rw [PowerBasis.blockedInterleavedSize, behind, ok_bind, if_neg (by simp),
      List.dropLast_concat, after, ok_bind]
    rfl

/-- If there is a blocked node, some index has an entry behind the first one, and its last
entry can be replaced by one out of range. -/
theorem Numbered.exists_overruns (numbered : Numbered grid 1 basis numbering)
    (room : numbering.dofs < Index.limit) (notFlat : basis.description.isFlat = false) :
    ∃ first rest, basis.Overruns numbering (first :: rest) := by
  induction numbered with
  | lagrange _ => exact absurd notFlat nofun
  | @power child numbering merging exponent copies childNumbered ih =>
      have roomChild := Nat.lt_of_le_of_lt Numbering.dofs_le_power room
      have rooted := childNumbered.rooted (covered.vertices_pos nonempty) roomChild
      have covers := childNumbered.covers covered nonempty
      obtain ⟨blocked, layout⟩ := merging
      cases blocked with
      | true =>
          cases layout with
          | lexicographic =>
              have passes := PowerBasis.passesTo_blocked copies rooted
              cases flat : child.description.isFlat with
              | true =>
                  exact ⟨0, [], passes.overruns
                    (childNumbered.overruns_nil covered nonempty roomChild flat)⟩
              | false =>
                  obtain ⟨first, rest, overruns⟩ := ih roomChild flat
                  exact ⟨0, first :: rest, passes.overruns overruns⟩
          | interleaved =>
              exact childNumbered.exists_overruns_blockedInterleaved covered nonempty roomChild copies
      | false =>
          have childNotFlat : child.description.isFlat = false := by
            simpa [PowerBasis.toBasis, Description.isFlat] using notFlat
          obtain ⟨first, rest, overruns⟩ := ih roomChild childNotFlat
          have inRange := overruns.first_lt covers
          cases layout with
          | lexicographic =>
              exact ⟨first, rest, (PowerBasis.passesTo_flatLexicographic copies rooted covers.count
                inRange).overruns overruns⟩
          | interleaved =>
              have small : first < 2 * numbering.dofs := by
                have rootLe := rooted.rootLe
                omega
              exact ⟨first * exponent, rest, (PowerBasis.passesTo_flatInterleaved copies rooted
                (Nat.zero_lt_of_lt inRange) small).overruns overruns⟩
  | @composite blocked members basis numbering created membersNumbered ih =>
      cases CompositeBasis.create_eq_ok created
      have rooted := members_rooted membersNumbered (covered.vertices_pos nonempty) room
      have covers := fun member inMembers =>
        (membersNumbered member inMembers).covers covered nonempty
      have rootedComposite := CompositeBasis.rooted rooted room
      cases blocked with
      | true =>
          obtain ⟨entry, -, passes⟩ :=
            CompositeBasis.exists_passesTo_blocked rootedComposite members.first_mem
          have roomFirst := Members.dofs_lt room members.first_mem
          cases flat : members.first.description.isFlat with
          | true =>
              exact ⟨entry, [], passes.overruns
                ((membersNumbered _ members.first_mem).overruns_nil covered nonempty roomFirst flat)⟩
          | false =>
              obtain ⟨first, rest, overruns⟩ := ih _ members.first_mem roomFirst flat
              exact ⟨entry, first :: rest, passes.overruns overruns⟩
      | false =>
          obtain ⟨_, inDescriptions, memberNotFlat⟩ := Description.allFlat_eq_false_iff.mp
            (by simpa [CompositeBasis.toBasis, Description.isFlat] using notFlat)
          obtain ⟨member, inMembers, rfl⟩ := List.mem_map.mp inDescriptions
          obtain ⟨first, rest, overruns⟩ := ih member inMembers (Members.dofs_lt room inMembers)
            memberNotFlat
          obtain ⟨entry, -, passes⟩ := CompositeBasis.exists_passesTo_flat rooted rootedComposite
            (CompositeBasis.sum_roots_lt rooted room) covers inMembers
            (overruns.first_lt (covers member inMembers))
          exact ⟨entry, rest, passes.overruns overruns⟩
  | tagged _ _ ih => exact ih room notFlat

end Strays

theorem Numbered.hasDofs (numbered : Numbered grid 1 basis numbering) :
    basis.description.hasDofs = true := by
  induction numbered with
  | lagrange _ => rfl
  | power _ exponent copies _ ih =>
      simp [PowerBasis.toBasis, Description.hasDofs, ih, Nat.lt_of_succ_le copies]
  | @composite _ members _ _ created _ ih =>
      cases CompositeBasis.create_eq_ok created
      exact Description.anyHasDofs_iff.mpr ⟨_, List.mem_map_of_mem members.first_mem,
        ih _ members.first_mem⟩
  | tagged _ _ ih => exact ih

section Powers

variable {numElements first : Nat} (covers : numbering.Covers numElements)
  (sizedBy : child.SizedBy numbering.tree) (copies : 0 < exponent)

include covers sizedBy copies

/-- A blocked interleaved power takes any last entry for the one that makes an index of the
child whole. -/
theorem PowerBasis.exists_stray_blockedInterleaved (overruns : child.Overruns numbering stem) :
    ∃ entry, (PowerBasis.toBasis ⟨⟨true, .interleaved⟩, exponent, child⟩).Stray
      (numbering.power ⟨true, .interleaved⟩ exponent) (stem ++ [entry]) := by
  obtain ⟨sub, found, branching, size, sized⟩ := overruns
  refine ⟨sub.count, fun entry inStem => ?_, ?_, ?_⟩
  · have dofsLe : numbering.dofs ≤ (numbering.power ⟨true, .interleaved⟩ exponent).dofs :=
      Numbering.dofs_le_power
    have inTree : sub.total ≤ numbering.tree.total := IndexTree.total_le_of_at? found
    rw [covers.total] at inTree
    rcases List.mem_append.mp inStem with inStem | isLast
    · have below := IndexTree.lt_total_of_at? found entry inStem
      rw [covers.total] at below
      omega
    · obtain rfl := List.mem_singleton.mp isLast
      have countLe := sub.count_le_total
      omega
  · change (numbering.tree.graft exponent).at? (stem ++ [sub.count]) = none
    rw [IndexTree.at?_append (IndexTree.at?_graft found), IndexTree.graft_of_count_pos branching]
    exact if_neg (Nat.lt_irrefl _)
  · change ∃ size, PowerBasis.blockedInterleavedSize _ (stem ++ [sub.count]) = .ok size ∧ 0 < size
    rw [blockedInterleavedSize, sized, ok_bind]
    by_cases some : 0 < size
    · exact ⟨size, if_pos (.inl some), some⟩
    · have before : child.size stem = .ok sub.count := sizedBy _ _ (IndexTree.size?_of_at? found)
      rw [if_neg (by simp [some]), List.dropLast_concat, before, ok_bind, if_pos branching]
      exact ⟨exponent, rfl, copies⟩

/-- A flat lexicographic power wraps first entries behind the last copy. -/
theorem PowerBasis.stray_flatLexicographic (rooted : child.Rooted numbering)
    (overruns : child.Overruns numbering (first :: rest)) :
    (PowerBasis.toBasis ⟨⟨false, .lexicographic⟩, exponent, child⟩).Stray
      (numbering.power ⟨false, .lexicographic⟩ exponent) [exponent * numbering.root + first] := by
  have inRange := overruns.first_lt covers
  obtain ⟨sub, found, branching, -⟩ := overruns
  rw [IndexTree.at?, if_pos (covers.count ▸ inRange)] at found
  have positive := IndexTree.count_pos_of_at? found branching
  refine ⟨fun entry inStem => ?_, ?_, (numbering.tree.block first).count, ?_, positive⟩
  · obtain rfl := List.mem_singleton.mp inStem
    change _ < 2 * (max 1 exponent * numbering.dofs)
    rw [Nat.max_eq_right copies]
    have rootLe := Nat.mul_le_mul_left exponent rooted.rootLe
    have once := Nat.le_mul_of_pos_left numbering.dofs copies
    have rootLe := rooted.rootLe
    omega
  · change (IndexTree.joined false ((List.replicate exponent numbering).map Numbering.tree)).at? _ = _
    rw [IndexTree.at?, if_neg]
    rw [IndexTree.count_joined_flat, List.map_replicate, List.map_replicate,
      List.sum_replicate_nat, covers.count]
    omega
  · have wrapped : Index.mod (exponent * numbering.root + first) numbering.root = .ok first := by
      rw [Index.mod, if_neg (by omega), Nat.mul_add_mod', Nat.mod_eq_of_lt inRange]
    refine (flatSize_cons rooted (Nat.zero_lt_of_lt inRange) wrapped []).trans ?_
    refine sizedBy _ _ ((IndexTree.size?_cons (covers.count ▸ inRange)).trans rfl)

end Powers

theorem Numbered.exists_stray_power {child : Basis} {numbering : Numbering}
    (covered : grid.Covered) (nonempty : 0 < grid.size 0)
    (childNumbered : Numbered grid 1 child numbering) (copies : 0 < exponent)
    (room : numbering.dofs < Index.limit)
    (ih : ∀ checked, child.description.faithful checked = false → ∃ first rest,
      (checked = true → first < numbering.root) ∧ child.Stray numbering (first :: rest))
    (unfaithful : (Description.power child.description exponent merging).faithful checked = false) :
    ∃ first rest, (checked = true → first < (numbering.power merging exponent).root) ∧
      (PowerBasis.toBasis ⟨merging, exponent, child⟩).Stray (numbering.power merging exponent)
        (first :: rest) := by
  have rooted := childNumbered.rooted (covered.vertices_pos nonempty) room
  have covers := childNumbered.covers covered nonempty
  have sizedBy := (childNumbered.describes covered nonempty room).sizedBy
  obtain ⟨blocked, layout⟩ := merging
  cases blocked with
  | true =>
      cases layout with
      | lexicographic =>
          have childUnfaithful : child.description.faithful false = false := by
            simpa [Description.faithful, Nat.ne_of_gt copies, childNumbered.hasDofs] using unfaithful
          obtain ⟨first, rest, -, stray⟩ := ih false childUnfaithful
          refine ⟨0, first :: rest, fun _ => ?_,
            (PowerBasis.passesTo_blocked copies rooted).stray stray⟩
          simpa [Numbering.power, Numbering.copies, Numbering.joined] using copies
      | interleaved =>
          cases flat : child.description.isFlat with
          | true =>
              have unchecked : checked = false := by
                simpa [Description.faithful, copies, flat] using unfaithful
              obtain ⟨entry, stray⟩ := PowerBasis.exists_stray_blockedInterleaved covers sizedBy
                copies (childNumbered.overruns_nil covered nonempty room flat)
              exact ⟨entry, [], fun isChecked => absurd isChecked (unchecked ▸ Bool.false_ne_true), stray⟩
          | false =>
              obtain ⟨first, rest, overruns⟩ :=
                childNumbered.exists_overruns covered nonempty room flat
              obtain ⟨entry, stray⟩ := PowerBasis.exists_stray_blockedInterleaved covers sizedBy
                copies overruns
              exact ⟨first, rest ++ [entry], fun _ => overruns.first_lt covers, stray⟩
  | false =>
      cases layout with
      | lexicographic =>
          obtain ⟨notFlat, unfaithful⟩ : child.description.isFlat = false ∧
              (checked = true → child.description.faithful true = false) := by
            simpa [Description.faithful, Nat.ne_of_gt copies] using unfaithful
          cases checked with
          | true =>
              obtain ⟨first, rest, inRange, stray⟩ := ih true (unfaithful rfl)
              refine ⟨first, rest, fun _ => ?_, (PowerBasis.passesTo_flatLexicographic copies
                rooted covers.count (inRange rfl)).stray stray⟩
              rw [Numbering.root_power_flat]
              exact (inRange rfl).trans_le (Nat.le_mul_of_pos_left _ copies)
          | false =>
              obtain ⟨first, rest, overruns⟩ :=
                childNumbered.exists_overruns covered nonempty room notFlat
              exact ⟨_, [], fun isChecked => absurd isChecked Bool.false_ne_true,
                PowerBasis.stray_flatLexicographic covers sizedBy copies rooted overruns⟩
      | interleaved =>
          have childUnfaithful : child.description.faithful checked = false := by
            simpa [Description.faithful, Nat.ne_of_gt copies] using unfaithful
          obtain ⟨first, rest, inRange, stray⟩ := ih checked childUnfaithful
          refine ⟨first * exponent, rest, fun isChecked => ?_, (PowerBasis.passesTo_flatInterleaved
            copies rooted (covers.count ▸ covers.branching)
            (stray.small first List.mem_cons_self)).stray stray⟩
          rw [Numbering.root_power_flat, Nat.mul_comm]
          exact Nat.mul_lt_mul_of_pos_left (inRange isChecked) copies

/-- If a description is not faithful, the bases have a stem that leaves the tree although
something is counted after it. -/
theorem Numbered.exists_stray (covered : grid.Covered) (nonempty : 0 < grid.size 0)
    (numbered : Numbered grid 1 basis numbering) (room : numbering.dofs < Index.limit)
    (unfaithful : basis.description.faithful checked = false) :
    ∃ first rest, (checked = true → first < numbering.root) ∧
      basis.Stray numbering (first :: rest) := by
  induction numbered generalizing checked with
  | lagrange _ => exact absurd unfaithful nofun
  | power _ _ copies childNumbered ih =>
      have roomChild := Nat.lt_of_le_of_lt Numbering.dofs_le_power room
      exact exists_stray_power covered nonempty childNumbered copies roomChild
        (fun _ => ih roomChild) unfaithful
  | @composite blocked members basis numbering created membersNumbered ih =>
      cases CompositeBasis.create_eq_ok created
      have rooted := members_rooted membersNumbered (covered.vertices_pos nonempty) room
      have rootedComposite := CompositeBasis.rooted rooted room
      cases blocked with
      | true =>
          have has : Description.anyHasDofs (members.toList.map Basis.description) = true :=
            Description.anyHasDofs_iff.mpr ⟨_, List.mem_map_of_mem members.first_mem,
              (membersNumbered _ members.first_mem).hasDofs⟩
          obtain ⟨_, inDescriptions, unfaithful⟩ := Description.allFaithful_eq_false_iff.mp
            (by simpa [CompositeBasis.toBasis, Description.faithful, has] using unfaithful)
          obtain ⟨member, inMembers, rfl⟩ := List.mem_map.mp inDescriptions
          obtain ⟨first, rest, -, stray⟩ :=
            ih member inMembers (Members.dofs_lt room inMembers) unfaithful
          obtain ⟨entry, inRoot, passes⟩ :=
            CompositeBasis.exists_passesTo_blocked rootedComposite inMembers
          exact ⟨entry, first :: rest, fun _ => inRoot, passes.stray stray⟩
      | false =>
          obtain ⟨_, inDescriptions, unfaithful⟩ := Description.allFaithful_eq_false_iff.mp
            (by simpa [CompositeBasis.toBasis, Description.faithful] using unfaithful)
          obtain ⟨member, inMembers, rfl⟩ := List.mem_map.mp inDescriptions
          obtain ⟨first, rest, inRange, stray⟩ :=
            ih member inMembers (Members.dofs_lt room inMembers) unfaithful
          obtain ⟨entry, inRoot, passes⟩ := CompositeBasis.exists_passesTo_flat rooted rootedComposite
            (CompositeBasis.sum_roots_lt rooted room)
            (fun member inMembers => (membersNumbered member inMembers).covers covered nonempty)
            inMembers (inRange rfl)
          exact ⟨entry, rest, fun _ => inRoot, passes.stray stray⟩
  | tagged _ _ ih =>
      obtain ⟨first, rest, inRange, small, outside, counted⟩ := ih room unfaithful
      exact ⟨first, rest, inRange, small, outside, counted⟩

end DofNumbering
