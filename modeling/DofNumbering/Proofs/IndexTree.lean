import DofNumbering.MultiIndex
import Mathlib.Algebra.BigOperators.Group.Finset.Basic
import Mathlib.Algebra.Order.BigOperators.Group.Finset
import Mathlib.Data.Set.Card

namespace DofNumbering

/-! The tree of the indices of a basis.

A path from the root to a node without blocks is a whole index.  The whole
indices are counted block by block, so their ranks follow the lexicographic
order and fill the numbers below their total.
-/

/-- At a node, `count` is the number of values of the next entry, and `block` says
what follows each of them; blocks from number `count` on have no meaning. -/
inductive IndexTree where
  | leaf
  | node (count : Nat) (block : Nat → IndexTree)
deriving Inhabited

namespace IndexTree

def count : IndexTree → Nat
  | .leaf => 0
  | .node count _ => count

def block : IndexTree → Nat → IndexTree
  | .leaf, _ => .leaf
  | .node _ block, entry => block entry

/-- The subtree after a stem. -/
def at? (tree : IndexTree) : List Nat → Option IndexTree
  | [] => some tree
  | entry :: rest => if entry < tree.count then (tree.block entry).at? rest else none

def Whole (tree : IndexTree) : MultiIndex → Prop
  | [] => tree.count = 0
  | entry :: rest => entry < tree.count ∧ (tree.block entry).Whole rest

/-- The number of whole indices. -/
def total : IndexTree → Nat
  | .leaf => 1
  | .node count block =>
      if count = 0 then 1 else ∑ entry ∈ Finset.range count, (block entry).total

/-- The number of whole indices in the blocks before a block. -/
def before (tree : IndexTree) (entry : Nat) : Nat :=
  ∑ earlier ∈ Finset.range entry, (tree.block earlier).total

/-- The number of whole indices before a whole index. -/
def rank? (tree : IndexTree) : MultiIndex → Option Nat
  | [] => if tree.count = 0 then some 0 else none
  | entry :: rest =>
      if entry < tree.count then ((tree.block entry).rank? rest).map (tree.before entry + ·)
      else none

/-- The rank of a whole index; any other index gets zero. -/
def rank (tree : IndexTree) (index : MultiIndex) : Nat := (tree.rank? index).getD 0

/-- The number of values of the entry after a stem, which is zero behind a whole
index and undefined behind an entry out of range. -/
def size? (tree : IndexTree) : List Nat → Option Nat
  | [] => some tree.count
  | entry :: rest =>
      if tree.count = 0 then some 0
      else if entry < tree.count then (tree.block entry).size? rest
      else none

/-- The longest whole indices have `depth` entries. -/
structure HasDepth (tree : IndexTree) (depth : Nat) : Prop where
  bound : ∀ index, tree.Whole index → index.length ≤ depth
  attained : ∃ index, tree.Whole index ∧ index.length = depth

variable {tree sub : IndexTree} {stem rest index other : MultiIndex} {entry rank rank' : Nat}

theorem whole_nil : tree.Whole [] ↔ tree.count = 0 := Iff.rfl

theorem whole_cons :
    tree.Whole (entry :: rest) ↔ entry < tree.count ∧ (tree.block entry).Whole rest := Iff.rfl

theorem total_of_count_zero (empty : tree.count = 0) : tree.total = 1 := by
  cases tree with
  | leaf => rfl
  | node count block => exact if_pos empty

theorem total_of_count_pos (nonempty : 0 < tree.count) : tree.total = tree.before tree.count := by
  cases tree with
  | leaf => exact absurd nonempty (Nat.lt_irrefl 0)
  | node count block => exact if_neg (Nat.pos_iff_ne_zero.mp nonempty)

theorem before_succ : tree.before (entry + 1) = tree.before entry + (tree.block entry).total :=
  Finset.sum_range_succ ..

theorem before_mono {entry' : Nat} (le : entry ≤ entry') :
    tree.before entry ≤ tree.before entry' :=
  Finset.sum_le_sum_of_subset (Finset.range_mono le)

theorem before_succ_le_total (below : entry < tree.count) :
    tree.before entry + (tree.block entry).total ≤ tree.total := by
  rw [← before_succ, total_of_count_pos (by omega)]
  exact before_mono below

theorem exists_rank?_iff_whole : (∃ rank, tree.rank? index = some rank) ↔ tree.Whole index := by
  induction index generalizing tree with
  | nil => simp [rank?, Whole]
  | cons entry rest ih =>
      simp only [rank?, Whole, ← ih]
      by_cases inRange : entry < tree.count <;> simp [inRange]

theorem rank?_cons_eq_some_iff : tree.rank? (entry :: rest) = some rank ↔
    entry < tree.count ∧
      ∃ inBlock, (tree.block entry).rank? rest = some inBlock ∧
        rank = tree.before entry + inBlock := by
  simp only [rank?]
  split
  · rename_i inRange
    simp only [Option.map_eq_some_iff, inRange, true_and]
    exact exists_congr (fun _ => and_congr_right (fun _ => eq_comm))
  · rename_i outside
    simp [outside]

theorem rank?_lt_total (ranked : tree.rank? index = some rank) : rank < tree.total := by
  induction index generalizing tree rank with
  | nil =>
      obtain ⟨empty, rfl⟩ : tree.count = 0 ∧ 0 = rank := by simpa [rank?] using ranked
      rw [total_of_count_zero empty]
      exact Nat.one_pos
  | cons entry rest ih =>
      obtain ⟨inRange, inBlock, rankedRest, rfl⟩ := rank?_cons_eq_some_iff.mp ranked
      have within := ih rankedRest
      have upper := before_succ_le_total inRange
      omega

/-- The block that a number falls into if the blocks are counted one after the other. -/
theorem exists_block {bound : Nat} (below : rank < tree.before bound) :
    ∃ entry < bound, ∃ inBlock < (tree.block entry).total, rank = tree.before entry + inBlock := by
  induction bound with
  | zero => simp [before] at below
  | succ bound ih =>
      by_cases earlier : rank < tree.before bound
      · obtain ⟨entry, inRange, inBlock, within, equal⟩ := ih earlier
        exact ⟨entry, by omega, inBlock, within, equal⟩
      · rw [before_succ] at below
        exact ⟨bound, by omega, rank - tree.before bound, by omega, by omega⟩

theorem exists_rank?_eq_some (below : rank < tree.total) :
    ∃ index, tree.rank? index = some rank := by
  induction tree generalizing rank with
  | leaf => exact ⟨[], congrArg some (Nat.lt_one_iff.mp below).symm⟩
  | node count block ih =>
      by_cases empty : (node count block).count = 0
      · rw [total_of_count_zero empty] at below
        obtain rfl : rank = 0 := by omega
        exact ⟨[], if_pos empty⟩
      · rw [total_of_count_pos (Nat.pos_of_ne_zero empty)] at below
        obtain ⟨entry, inRange, inBlock, within, rfl⟩ := exists_block below
        obtain ⟨rest, ranked⟩ := ih entry within
        exact ⟨entry :: rest, rank?_cons_eq_some_iff.mpr ⟨inRange, inBlock, ranked, rfl⟩⟩

theorem total_pos (tree : IndexTree) : 0 < tree.total := by
  induction tree with
  | leaf => exact Nat.one_pos
  | node count block ih =>
      by_cases empty : (node count block).count = 0
      · rw [total_of_count_zero empty]
        exact Nat.one_pos
      · have positive : 0 < (block 0).total := ih 0
        have first : before _ 0 + (block 0).total ≤ (node count block).total :=
          before_succ_le_total (Nat.pos_of_ne_zero empty)
        omega

theorem count_le_total (tree : IndexTree) : tree.count ≤ tree.total := by
  rcases Nat.eq_zero_or_pos tree.count with empty | nonempty
  · omega
  · rw [total_of_count_pos nonempty, before]
    calc tree.count = ∑ _entry ∈ Finset.range tree.count, 1 := by simp
      _ ≤ ∑ entry ∈ Finset.range tree.count, (tree.block entry).total :=
          Finset.sum_le_sum (fun entry _ => (tree.block entry).total_pos)

theorem exists_whole (tree : IndexTree) : ∃ index, tree.Whole index := by
  obtain ⟨index, ranked⟩ := exists_rank?_eq_some tree.total_pos
  exact ⟨index, exists_rank?_iff_whole.mp ⟨0, ranked⟩⟩

theorem rank?_lt_of_compare_lt (ranked : tree.rank? index = some rank)
    (ranked' : tree.rank? other = some rank') (lower : MultiIndex.compare index other = .lt) :
    rank < rank' := by
  induction index generalizing tree other rank rank' with
  | nil =>
      cases other with
      | nil => simp [MultiIndex.compare] at lower
      | cons entry' rest' =>
          obtain ⟨empty, _⟩ : tree.count = 0 ∧ 0 = rank := by simpa [rank?] using ranked
          obtain ⟨inRange, _⟩ := rank?_cons_eq_some_iff.mp ranked'
          omega
  | cons entry rest ih =>
      cases other with
      | nil => simp [MultiIndex.compare] at lower
      | cons entry' rest' =>
          obtain ⟨inRange, inBlock, rankedRest, rfl⟩ := rank?_cons_eq_some_iff.mp ranked
          obtain ⟨inRange', inBlock', rankedRest', rfl⟩ := rank?_cons_eq_some_iff.mp ranked'
          have within := rank?_lt_total rankedRest
          rcases Nat.lt_trichotomy entry entry' with smaller | rfl | larger
          · have step : tree.before (entry + 1) ≤ tree.before entry' := before_mono smaller
            rw [before_succ] at step
            omega
          · have deeper : MultiIndex.compare rest rest' = .lt := by
              simpa [MultiIndex.compare] using lower
            have := ih rankedRest rankedRest' deeper
            omega
          · simp [MultiIndex.compare, larger, Nat.lt_asymm larger] at lower

theorem rank?_lt_iff (ranked : tree.rank? index = some rank)
    (ranked' : tree.rank? other = some rank') :
    MultiIndex.compare index other = .lt ↔ rank < rank' := by
  refine ⟨rank?_lt_of_compare_lt ranked ranked', fun less => ?_⟩
  cases order : MultiIndex.compare index other with
  | lt => rfl
  | eq =>
      cases MultiIndex.compare_eq_eq_iff.mp order
      rw [ranked] at ranked'
      cases ranked'
      exact absurd less (Nat.lt_irrefl _)
  | gt =>
      have swapped : MultiIndex.compare other index = .lt := by
        rw [← MultiIndex.compare_swap, order]
        rfl
      have := rank?_lt_of_compare_lt ranked' ranked swapped
      omega

theorem rank?_injective (ranked : tree.rank? index = some rank)
    (ranked' : tree.rank? other = some rank) : index = other := by
  rw [← MultiIndex.compare_eq_eq_iff]
  cases order : MultiIndex.compare index other with
  | eq => rfl
  | lt => exact absurd (rank?_lt_of_compare_lt ranked ranked' order) (Nat.lt_irrefl _)
  | gt =>
      have swapped : MultiIndex.compare other index = .lt := by
        rw [← MultiIndex.compare_swap, order]
        rfl
      exact absurd (rank?_lt_of_compare_lt ranked' ranked swapped) (Nat.lt_irrefl _)

theorem rank?_eq_rank (whole : tree.Whole index) : tree.rank? index = some (tree.rank index) := by
  obtain ⟨value, ranked⟩ := exists_rank?_iff_whole.mpr whole
  rw [IndexTree.rank, ranked, Option.getD_some]

theorem rank_eq (ranked : tree.rank? index = some rank) : tree.rank index = rank := by
  rw [IndexTree.rank, ranked, Option.getD_some]

theorem rank_bijOn : Set.BijOn tree.rank {index | tree.Whole index} {value | value < tree.total} := by
  refine ⟨fun index whole => rank?_lt_total (rank?_eq_rank whole),
    fun index whole other whole' equal => ?_, fun value below => ?_⟩
  · have ranked := rank?_eq_rank whole
    rw [equal] at ranked
    exact rank?_injective ranked (rank?_eq_rank whole')
  · obtain ⟨index, ranked⟩ := exists_rank?_eq_some below
    exact ⟨index, exists_rank?_iff_whole.mp ⟨value, ranked⟩, rank_eq ranked⟩

/-- The rank counts the whole indices that come before. -/
theorem ncard_lower (whole : tree.Whole index) :
    {other | tree.Whole other ∧ MultiIndex.compare other index = .lt}.ncard = tree.rank index := by
  have ranked := rank?_eq_rank whole
  have bijection : Set.BijOn tree.rank
      {other | tree.Whole other ∧ MultiIndex.compare other index = .lt}
      (Finset.range (tree.rank index)) := by
    refine ⟨?_, rank_bijOn.injOn.mono (fun _ lower => lower.1), ?_⟩
    · rintro other ⟨wholeOther, lower⟩
      rw [Finset.mem_coe, Finset.mem_range]
      exact rank?_lt_of_compare_lt (rank?_eq_rank wholeOther) ranked lower
    · intro value inRange
      have less : value < tree.rank index := Finset.mem_range.mp (Finset.mem_coe.mp inRange)
      obtain ⟨other, ranked'⟩ := exists_rank?_eq_some (Nat.lt_trans less (rank?_lt_total ranked))
      refine ⟨other, ⟨exists_rank?_iff_whole.mp ⟨value, ranked'⟩, ?_⟩, rank_eq ranked'⟩
      exact (rank?_lt_iff ranked' ranked).mpr less
  rw [bijection.ncard_eq, Set.ncard_coe_finset, Finset.card_range]

theorem whole_of_at? (found : tree.at? stem = some sub) :
    tree.Whole (stem ++ rest) ↔ sub.Whole rest := by
  induction stem generalizing tree with
  | nil =>
      cases found
      rfl
  | cons entry stem ih =>
      simp only [at?] at found
      split at found
      · rename_i inRange
        rw [List.cons_append, whole_cons, ih found]
        exact and_iff_right inRange
      · contradiction

theorem exists_at?_of_whole (whole : tree.Whole (stem ++ rest)) :
    ∃ sub, tree.at? stem = some sub := by
  induction stem generalizing tree with
  | nil => exact ⟨tree, rfl⟩
  | cons entry stem ih =>
      obtain ⟨inRange, wholeRest⟩ := whole
      simpa [at?, inRange] using ih wholeRest

/-- Nothing follows a whole index. -/
theorem eq_nil_of_whole_append (whole : tree.Whole stem) (longer : tree.Whole (stem ++ rest)) :
    rest = [] := by
  obtain ⟨sub, found⟩ := exists_at?_of_whole longer
  have ends : sub.Whole [] := (whole_of_at? found).mp (by rwa [List.append_nil])
  cases rest with
  | nil => rfl
  | cons entry rest =>
      obtain ⟨inRange, -⟩ := (whole_of_at? found).mp longer
      exact absurd inRange (ends ▸ Nat.not_lt_zero entry)

theorem exists_at?_iff :
    (∃ sub, tree.at? stem = some sub) ↔ ∃ index, tree.Whole index ∧ stem <+: index := by
  constructor
  · rintro ⟨sub, found⟩
    obtain ⟨rest, whole⟩ := sub.exists_whole
    exact ⟨stem ++ rest, (whole_of_at? found).mpr whole, List.prefix_append ..⟩
  · rintro ⟨_, whole, rest, rfl⟩
    exact exists_at?_of_whole whole

theorem at?_append (found : tree.at? stem = some sub) : tree.at? (stem ++ rest) = sub.at? rest := by
  induction stem generalizing tree with
  | nil =>
      cases found
      rfl
  | cons entry stem ih =>
      simp only [at?] at found
      split at found
      · rename_i inRange
        simpa only [List.cons_append, at?, if_pos inRange] using ih found
      · contradiction

theorem at?_push (found : tree.at? stem = some sub) (inRange : entry < sub.count) :
    tree.at? (stem ++ [entry]) = some (sub.block entry) := by
  rw [at?_append found, at?, if_pos inRange, at?]

theorem total_le_of_at? (found : tree.at? stem = some sub) : sub.total ≤ tree.total := by
  induction stem generalizing tree with
  | nil => exact Nat.le_of_eq (congrArg total (Option.some.inj found)).symm
  | cons entry stem ih =>
      simp only [at?] at found
      split at found
      · rename_i inRange
        have inBlock := ih found
        have block := before_succ_le_total inRange
        omega
      · contradiction

theorem lt_total_of_at? (found : tree.at? stem = some sub) : ∀ entry ∈ stem, entry < tree.total := by
  induction stem generalizing tree with
  | nil => exact fun _ inStem => absurd inStem List.not_mem_nil
  | cons first rest ih =>
      simp only [at?] at found
      split at found
      · rename_i inRange
        intro entry inStem
        have block := before_succ_le_total inRange
        rcases List.mem_cons.mp inStem with rfl | inRest
        · exact inRange.trans_le tree.count_le_total
        · have inBlock := ih found entry inRest
          omega
      · contradiction

theorem count_pos_of_at? (found : tree.at? stem = some sub) (branching : 0 < sub.count) :
    0 < tree.count := by
  cases stem with
  | nil => rwa [Option.some.inj found]
  | cons first rest =>
      simp only [at?] at found
      split at found
      · rename_i inRange
        exact Nat.zero_lt_of_lt inRange
      · contradiction

theorem size?_of_at? (found : tree.at? stem = some sub) : tree.size? stem = some sub.count := by
  induction stem generalizing tree with
  | nil =>
      cases found
      rfl
  | cons entry stem ih =>
      simp only [at?] at found
      split at found
      · rename_i inRange
        simpa [size?, inRange, Nat.ne_of_gt (Nat.zero_lt_of_lt inRange)] using ih found
      · contradiction

theorem size?_of_count_zero (empty : tree.count = 0) (stem : List Nat) : tree.size? stem = some 0 := by
  cases stem with
  | nil => exact congrArg some empty
  | cons entry rest => exact if_pos empty

theorem size?_cons (inRange : entry < tree.count) :
    tree.size? (entry :: rest) = (tree.block entry).size? rest := by
  rw [size?, if_neg (by omega), if_pos inRange]

theorem size?_append (found : tree.at? stem = some sub) :
    tree.size? (stem ++ rest) = sub.size? rest := by
  induction stem generalizing tree with
  | nil => rw [Option.some.inj found, List.nil_append]
  | cons entry stem ih =>
      simp only [at?] at found
      split at found
      · rename_i inRange
        rw [List.cons_append, size?_cons inRange, ih found]
      · contradiction

theorem of_size?_cons {size : Nat} (branching : 0 < tree.count)
    (sized : tree.size? (entry :: rest) = some size) :
    entry < tree.count ∧ (tree.block entry).size? rest = some size := by
  rw [size?, if_neg (by omega)] at sized
  split at sized
  · exact ⟨‹_›, sized⟩
  · contradiction

theorem of_size?_node {entries size : Nat} {block : Nat → IndexTree} (branching : 0 < entries)
    (sized : (node entries block).size? (entry :: rest) = some size) :
    entry < entries ∧ (block entry).size? rest = some size :=
  @of_size?_cons (node entries block) rest entry size branching sized

/-- The entries that continue a stem are those below the size. -/
theorem extends_iff_lt_count (found : tree.at? stem = some sub) :
    (∃ index, tree.Whole index ∧ stem ++ [entry] <+: index) ↔ entry < sub.count := by
  rw [← exists_at?_iff, at?_append found]
  by_cases inRange : entry < sub.count <;> simp [at?, inRange]

end IndexTree

end DofNumbering
