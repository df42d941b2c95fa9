import DofNumbering.Proofs.IndexTree.Interleaving

namespace DofNumbering

/-! Ranks in joined and interleaved trees.

The rank of an index of a part counts the whole indices of the parts before it and
those of the part itself.  So it is the same whether the parts keep an entry of
their own or are numbered through.
-/

namespace IndexTree

variable {parts : List IndexTree} {tree : IndexTree} {blocked : Bool}
  {part entry count rank : Nat} {inner : MultiIndex}

theorem before_joined_blocked (le : part ≤ parts.length) :
    (joined true parts).before part = partOffset (parts.map total) part := by
  induction part with
  | zero => rfl
  | succ part ih =>
      have found : parts[part]? = some parts[part] := List.getElem?_eq_getElem le
      have foundTotal : (parts.map total)[part]? = some parts[part].total := by
        rw [List.getElem?_map, found]
        rfl
      rw [before_succ, ih (Nat.le_of_succ_le le), block_joined_blocked found,
        partOffset_succ foundTotal]

theorem sum_total_flatBlock_first {others : List IndexTree} (le : entry ≤ tree.count) :
    ∑ earlier ∈ Finset.range entry, (flatBlock (tree :: others) earlier).total =
      tree.before entry := by
  refine Finset.sum_congr rfl (fun earlier inRange => ?_)
  rw [flatBlock, if_pos (Nat.lt_of_lt_of_le (Finset.mem_range.mp inRange) le)]

theorem before_joined_flat (found : parts[part]? = some tree) (le : entry ≤ tree.count) :
    (joined false parts).before (partOffset (parts.map IndexTree.count) part + entry) =
      partOffset (parts.map (weight false)) part + tree.before entry := by
  rw [before, block_joined_flat]
  induction parts generalizing part with
  | nil => simp at found
  | cons first others ih =>
      cases part with
      | zero =>
          obtain rfl : first = tree := by simpa using found
          simpa using sum_total_flatBlock_first le
      | succ part =>
          have rest := @ih part (by simpa using found)
          rw [List.map_cons, List.map_cons, partOffset_cons_succ, partOffset_cons_succ,
            Nat.add_assoc, Finset.sum_range_add, sum_total_flatBlock_first (Nat.le_refl _),
            weight, if_neg Bool.false_ne_true, Nat.add_assoc, ← rest]
          simp [flatBlock]

/-- The whole indices of the parts before come first. -/
theorem rank?_joined_of_count_pos (branching : 0 < tree.count) (found : parts[part]? = some tree)
    (ranked : tree.rank? inner = some rank) :
    (joined blocked parts).rank?
        (.joined blocked (partOffset (parts.map IndexTree.count) part) part inner) =
      some (partOffset (parts.map (weight blocked)) part + rank) := by
  cases blocked with
  | true =>
      have inRange := (List.getElem?_eq_some_iff.mp found).1
      refine rank?_cons_eq_some_iff.mpr ⟨inRange, rank, ?_, ?_⟩
      · rwa [block_joined_blocked found]
      · rw [before_joined_blocked (Nat.le_of_lt inRange)]
        rfl
  | false =>
      obtain ⟨entry, rest, rfl, within, -⟩ :=
        exists_cons_of_whole branching (exists_rank?_iff_whole.mp ⟨rank, ranked⟩)
      obtain ⟨-, inBlock, rankedRest, rfl⟩ := rank?_cons_eq_some_iff.mp ranked
      refine rank?_cons_eq_some_iff.mpr ⟨?_, inBlock, ?_, ?_⟩
      · exact (tiling_consecutive (parts.map IndexTree.count)).lt_sum (by simp [found]) within
      · rwa [block_joined_flat, flatBlock_partOffset found within]
      · rw [before_joined_flat found (Nat.le_of_lt within), Nat.add_assoc]

theorem rank?_joined (branching : ∀ tree ∈ parts, 0 < tree.count)
    (found : parts[part]? = some tree) (ranked : tree.rank? inner = some rank) :
    (joined blocked parts).rank?
        (.joined blocked (partOffset (parts.map IndexTree.count) part) part inner) =
      some (partOffset (parts.map total) part + rank) := by
  rw [← map_weight branching]
  exact rank?_joined_of_count_pos (branching tree (List.mem_of_getElem? found)) found ranked

end IndexTree

end DofNumbering
