import DofNumbering.Proofs.Descriptor
import DofNumbering.Proofs.IndexTree

namespace DofNumbering

/-! The tree of a rule for sizes.

A rule that no infinite path stays within has a tree: where it stays within, each stem
without a tree is followed by another one without a tree.  The whole indices of the
tree are the indices that stay within and that nothing follows.
-/

namespace MultiIndex

variable {size : List Nat → Except Fault Nat} {stem : MultiIndex} {entry count : Nat}

/-- The index stays within the sizes, and nothing follows it. -/
def Complete (size : List Nat → Except Fault Nat) (index : MultiIndex) : Prop :=
  WithinSizes size index ∧ size index = .ok 0

theorem WithinSizes.push (within : WithinSizes size stem) (sized : size stem = .ok count)
    (inRange : entry < count) : WithinSizes size (stem ++ [entry]) := by
  intro start last isPrefix
  rcases List.prefix_concat_iff.mp isPrefix with whole | inStem
  · obtain ⟨rfl, same⟩ := List.append_inj' whole rfl
    obtain rfl := List.singleton_inj.mp same
    exact ⟨count, sized, inRange⟩
  · exact within start last inStem

/-- If each stem with a property can be continued to another one, so can an infinite path. -/
theorem exists_path {holds : MultiIndex → Prop} (start : holds [])
    (continued : ∀ stem, holds stem → ∃ entry, holds (stem ++ [entry])) :
    ∃ path : Nat → Nat, ∀ length, holds ((List.range length).map path) := by
  choose! next held using continued
  let stems : Nat → MultiIndex := fun length =>
    Nat.rec [] (fun _ stem => stem ++ [next stem]) length
  have stems_eq : ∀ length, (List.range length).map (fun place => next (stems place)) =
      stems length := by
    intro length
    induction length with
    | zero => rfl
    | succ length ih =>
        rw [List.range_succ, List.map_append, ih]
        rfl
  refine ⟨fun place => next (stems place), fun length => ?_⟩
  rw [stems_eq]
  induction length with
  | zero => exact start
  | succ length ih => exact held _ ih

end MultiIndex

namespace IndexTree

/-- The nodes of the tree have as many blocks as the rule says. -/
def Follows (tree : IndexTree) (size : List Nat → Except Fault Nat) : Prop :=
  ∀ stem sub, tree.at? stem = some sub → size stem = .ok sub.count

variable {tree : IndexTree} {size : List Nat → Except Fault Nat} {stem index : MultiIndex}
  {entry count : Nat}

theorem Follows.block (follows : tree.Follows size) (inRange : entry < tree.count) :
    (tree.block entry).Follows (fun stem => size (entry :: stem)) := by
  intro stem sub found
  refine follows (entry :: stem) sub ?_
  rw [at?, if_pos inRange, found]

theorem follows_node {block : Nat → IndexTree} (sized : size [] = .ok count)
    (follows : ∀ entry < count, (block entry).Follows (fun stem => size (entry :: stem))) :
    (node count block).Follows size := by
  intro stem sub found
  cases stem with
  | nil =>
      obtain rfl : node count block = sub := Option.some.inj found
      exact sized
  | cons entry rest =>
      simp only [at?] at found
      split at found
      · rename_i inRange
        exact follows entry inRange rest sub found
      · contradiction

theorem withinSizes_iff (follows : tree.Follows size) :
    MultiIndex.WithinSizes size stem ↔ ∃ sub, tree.at? stem = some sub := by
  induction stem generalizing tree size with
  | nil => exact iff_of_true MultiIndex.withinSizes_nil ⟨tree, rfl⟩
  | cons entry rest ih =>
      rw [MultiIndex.withinSizes_cons_iff, follows [] tree rfl]
      by_cases inRange : entry < tree.count
      · rw [ih (follows.block inRange)]
        simp [at?, inRange]
      · simp [at?, inRange]

theorem whole_iff_at? : tree.Whole index ↔ ∃ sub, tree.at? index = some sub ∧ sub.count = 0 := by
  induction index generalizing tree with
  | nil => simp [at?, Whole]
  | cons entry rest ih => by_cases inRange : entry < tree.count <;> simp [at?, whole_cons, inRange, ih]

theorem complete_iff (follows : tree.Follows size) :
    MultiIndex.Complete size index ↔ tree.Whole index := by
  rw [MultiIndex.Complete, withinSizes_iff follows, whole_iff_at?, ← exists_and_right]
  refine exists_congr (fun sub => and_congr_right (fun found => ?_))
  rw [follows index sub found, Except.ok.injEq]

/-- The number of complete indices. -/
theorem ncard_complete (follows : tree.Follows size) :
    {index | MultiIndex.Complete size index}.ncard = tree.total := by
  simp only [complete_iff follows]
  have values : {value | value < tree.total} = (Finset.range tree.total : Set Nat) := by
    ext value
    simp
  rw [rank_bijOn.ncard_eq, values, Set.ncard_coe_finset, Finset.card_range]

/-- The rank of a complete index is the number of complete ones that come before. -/
theorem rank?_eq_some_iff (follows : tree.Follows size) {number : Nat} :
    tree.rank? index = some number ↔ MultiIndex.Complete size index ∧
      number = {other | MultiIndex.Complete size other ∧
        MultiIndex.compare other index = .lt}.ncard := by
  simp only [complete_iff follows]
  constructor
  · intro ranked
    have whole := exists_rank?_iff_whole.mp ⟨number, ranked⟩
    rw [ncard_lower whole, rank_eq ranked]
    exact ⟨whole, rfl⟩
  · rintro ⟨whole, rfl⟩
    rw [ncard_lower whole, rank?_eq_rank whole]

theorem exists_height (tree : IndexTree) :
    ∃ height, ∀ index, tree.Whole index → index.length ≤ height := by
  induction tree with
  | leaf =>
      refine ⟨0, fun index whole => ?_⟩
      cases index with
      | nil => exact Nat.le_refl 0
      | cons entry rest => exact absurd whole.1 (Nat.not_lt_zero entry)
  | node count block ih =>
      choose height bound using ih
      refine ⟨(Finset.range count).sup height + 1, fun index whole => ?_⟩
      cases index with
      | nil => exact Nat.zero_le _
      | cons entry rest =>
          have inBlock := bound entry rest whole.2
          have le : height entry ≤ (Finset.range count).sup height :=
            Finset.le_sup (Finset.mem_range.mpr whole.1)
          exact Nat.succ_le_succ (inBlock.trans le)

theorem exists_follows_of_blocks (sized : size stem = .ok count)
    (blocks : ∀ entry < count, ∃ block : IndexTree,
      block.Follows (fun rest => size (stem ++ [entry] ++ rest))) :
    ∃ tree : IndexTree, tree.Follows (fun rest => size (stem ++ rest)) := by
  choose! block follows using blocks
  refine ⟨node count block, follows_node (by rwa [List.append_nil]) (fun entry inRange => ?_)⟩
  simpa only [List.append_assoc, List.singleton_append] using follows entry inRange

/-- Each stem that has no tree although it stays within the sizes can be continued to
another one, so there would be an infinite path. -/
theorem exists_follows
    (sized : ∀ stem, MultiIndex.WithinSizes size stem → ∃ count, size stem = .ok count)
    (finite : ∀ path : Nat → Nat, ∃ length,
      ¬ MultiIndex.WithinSizes size ((List.range length).map path)) :
    ∃ tree : IndexTree, tree.Follows size := by
  by_contra none
  obtain ⟨path, missing⟩ := @MultiIndex.exists_path
    (fun stem => MultiIndex.WithinSizes size stem ∧
      ¬ ∃ tree : IndexTree, tree.Follows (fun rest => size (stem ++ rest)))
    ⟨MultiIndex.withinSizes_nil, none⟩
    (by
      rintro stem ⟨within, missing⟩
      obtain ⟨count, counted⟩ := sized stem within
      by_contra all
      refine missing (exists_follows_of_blocks counted (fun entry inRange => ?_))
      by_contra noBlock
      exact all ⟨entry, within.push counted inRange, noBlock⟩)
  obtain ⟨length, outside⟩ := finite path
  exact outside (missing length).1

end IndexTree

end DofNumbering
