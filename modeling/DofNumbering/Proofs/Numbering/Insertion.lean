import DofNumbering.Proofs.IndexTree.Ranks
import DofNumbering.Proofs.Numbering.Laws

namespace DofNumbering

/-! A part put between the others of a joined numbering.

If it has no local degree of freedom, the others keep their positions.  Their ranks
grow by its weight if they are behind it, even if it has no index at all.
-/

/-- The position of a part after another one has been put at `place`. -/
def skipping (place part : Nat) : Nat := if part < place then part else part + 1

section Lists

variable {α : Type} {front back : List α} {item : α} {part : Nat}

theorem getElem?_skipping :
    (front ++ item :: back)[skipping front.length part]? = (front ++ back)[part]? := by
  unfold skipping
  split
  · rename_i inFront
    rw [List.getElem?_append_left inFront, List.getElem?_append_left inFront]
  · rename_i behind
    rw [List.getElem?_append_right (by omega), List.getElem?_append_right (by omega),
      Nat.sub_add_comm (Nat.le_of_not_lt behind), List.getElem?_cons_succ]

theorem partOffset_skipping (value : α → Nat) :
    partOffset ((front ++ item :: back).map value) (skipping front.length part) =
      partOffset ((front ++ back).map value) part +
        if part < front.length then 0 else value item := by
  rw [partOffset_map, partOffset_map]
  unfold skipping
  split
  · rename_i inFront
    rw [List.take_append_of_le_length (Nat.le_of_lt inFront),
      List.take_append_of_le_length (Nat.le_of_lt inFront), Nat.add_zero]
  · rename_i behind
    obtain ⟨place, rfl⟩ := Nat.exists_eq_add_of_le (Nat.le_of_not_lt behind)
    rw [Nat.add_assoc, List.take_length_add_append, List.take_length_add_append, List.take_succ_cons]
    simp only [List.map_append, List.map_cons, List.sum_append, List.sum_cons]
    omega

end Lists

/-- The number of a place after `count` numbers have been put before place `start`. -/
def shifted (start count number : Nat) : Nat := if number < start then number else number + count

theorem shifted_injective {start count number number' : Nat}
    (same : shifted start count number = shifted start count number') : number = number' := by
  unfold shifted at same
  split at same <;> split at same <;> omega

/-- The indices at the same positions of another numbering have the ranks that follow if
`count` indices are put before the one of rank `start`. -/
structure Numbering.Shifts (numbering numbering' : Numbering) (numElements start count : Nat) :
    Prop where
  size : numbering'.size = numbering.size
  ranks : ∀ element < numElements, ∀ j < numbering.size, ∃ rank,
    numbering.tree.rank? (numbering.index element j) = some rank ∧
      numbering'.tree.rank? (numbering'.index element j) = some (shifted start count rank)

namespace Numbering

variable {blocked : Bool} {front back : List Numbering} {extra : Numbering} {numElements : Nat}

theorem count_joined_insert_pos (nonempty : front ++ back ≠ [])
    (each : ∀ part ∈ front ++ back, part.Covers numElements) :
    0 < (joined blocked (front ++ extra :: back)).tree.count := by
  obtain ⟨first, inParts⟩ := List.exists_mem_of_ne_nil _ nonempty
  have inserted : first ∈ front ++ extra :: back :=
    List.perm_middle.mem_iff.mpr (List.mem_cons_of_mem _ inParts)
  exact IndexTree.count_joined_pos_of_mem (List.mem_map_of_mem inserted) (each first inParts).branching

theorem map_weight_tree {parts : List Numbering} (each : ∀ part ∈ parts, part.Covers numElements) :
    parts.map (fun part => part.tree.weight blocked) = parts.map dofs := by
  refine List.map_congr_left (fun part inParts => ?_)
  rw [IndexTree.weight_of_count_pos (each part inParts).branching, (each part inParts).total]

theorem total_joined_insert (nonempty : front ++ back ≠ [])
    (each : ∀ part ∈ front ++ back, part.Covers numElements) :
    (joined blocked (front ++ extra :: back)).tree.total =
      (joined blocked (front ++ back)).dofs + extra.tree.weight blocked := by
  have moved := (@List.perm_middle _ extra front back).map (fun part => part.tree.weight blocked)
  refine (IndexTree.total_joined_of_count_pos (count_joined_insert_pos nonempty each)).trans ?_
  rw [List.map_map]
  refine moved.sum_eq.trans ?_
  rw [List.map_cons, List.sum_cons, map_weight_tree each, Nat.add_comm]
  rfl

/-- The parts before the new one keep their ranks, and those behind it move. -/
theorem shifts_joined_insert (each : ∀ part ∈ front ++ back, part.Covers numElements)
    (noPosition : extra.size = 0) (roots : extra.root = extra.tree.count) :
    (joined blocked (front ++ back)).Shifts (joined blocked (front ++ extra :: back)) numElements
      (front.map dofs).sum (extra.tree.weight blocked) := by
  refine ⟨by simp [joined, noPosition], fun element inGrid j below => ?_⟩
  obtain ⟨i, part, k, found, within, rfl, equal⟩ := exists_position below
  have covers := each part (List.mem_of_getElem? found)
  obtain ⟨inner, ranked⟩ :=
    IndexTree.exists_rank?_iff_whole.mpr (covers.whole element inGrid k within)
  have found' : (front ++ extra :: back)[skipping front.length i]? = some part :=
    getElem?_skipping.trans found
  have position : partOffset ((front ++ back).map size) i =
      partOffset ((front ++ extra :: back).map size) (skipping front.length i) := by
    rw [partOffset_skipping, noPosition, ite_self, Nat.add_zero]
  have trees : (front ++ extra :: back).map root =
      ((front ++ extra :: back).map tree).map IndexTree.count := by
    rw [List.map_map]
    refine List.map_congr_left (fun other inParts => ?_)
    rcases List.mem_cons.mp (List.perm_middle.mem_iff.mp inParts) with rfl | inOthers
    · exact roots
    · exact (each other inOthers).count.symm
  have atBase := @IndexTree.rank?_joined _ _ blocked i _ _ (branching_of_covers each)
    (getElem?_map_tree found) ranked
  have atExtended := @IndexTree.rank?_joined_of_count_pos _ _ blocked _ _ _ covers.branching
    (getElem?_map_tree found') ranked
  rw [tree_joined_root each] at atBase
  refine ⟨_, (congrArg _ (equal element)).trans atBase, ?_⟩
  rw [position, index_joined found' within, trees]
  refine atExtended.trans (congrArg some ?_)
  have before : (front.map dofs).sum = partOffset ((front ++ back).map dofs) front.length := by
    rw [partOffset_map, List.take_left]
  have totals : ((front ++ back).map tree).map IndexTree.total = (front ++ back).map dofs := by
    rw [List.map_map]
    exact List.map_congr_left (fun other inParts => (each other inParts).total)
  have inPart : inner < part.dofs := covers.total ▸ IndexTree.rank?_lt_total ranked
  have order := @partOffset_add_lt_iff _ _ _ _ front.length
    (show ((front ++ back).map dofs)[i]? = some part.dofs by rw [List.getElem?_map, found]; rfl) inPart
  rw [List.map_map, partOffset_skipping, totals, before, shifted]
  simp only [Function.comp_def, map_weight_tree each, order]
  split <;> omega

end Numbering

end DofNumbering
