import DofNumbering.Proofs.IndexTree
import DofNumbering.Proofs.Tiling
import Mathlib.Algebra.BigOperators.Intervals

namespace DofNumbering

/-! Index trees of several blocks one after the other.

The blocks keep an entry of their own, or their first entries are numbered
through.
-/

/-- The index for an index of block `part`, before which there are `offset` values
of the first entry. -/
def MultiIndex.joined (blocked : Bool) (offset part : Nat) (index : MultiIndex) : MultiIndex :=
  if blocked then part :: index else index.modifyHead (offset + ·)

namespace IndexTree

/-- What follows a value of the first entry if the values of several trees are
numbered through. -/
def flatBlock : List IndexTree → Nat → IndexTree
  | [], _ => .leaf
  | tree :: others, entry =>
      if entry < tree.count then tree.block entry else flatBlock others (entry - tree.count)

def joined (blocked : Bool) (parts : List IndexTree) : IndexTree :=
  if blocked then .node parts.length (fun part => parts[part]?.getD .leaf)
  else .node (parts.map count).sum (flatBlock parts)

/-- The number of whole indices of the joined tree that belong to a part.  A part without
blocks is a whole index if it has an entry of its own, and else nothing is left of it. -/
def weight (blocked : Bool) (tree : IndexTree) : Nat :=
  if blocked then tree.total else tree.before tree.count

variable {parts : List IndexTree} {tree tree' : IndexTree} {blocked : Bool}
  {part part' entry : Nat} {index index' : MultiIndex}

theorem weight_of_count_pos (branching : 0 < tree.count) : tree.weight blocked = tree.total := by
  cases blocked with
  | true => rfl
  | false => exact (total_of_count_pos branching).symm

theorem map_weight (branching : ∀ tree ∈ parts, 0 < tree.count) :
    parts.map (weight blocked) = parts.map total :=
  List.map_congr_left (fun tree inParts => weight_of_count_pos (branching tree inParts))

@[simp] theorem count_joined_blocked : (joined true parts).count = parts.length := rfl

@[simp] theorem count_joined_flat : (joined false parts).count = (parts.map count).sum := rfl

theorem count_joined_pos_of_mem (inParts : tree ∈ parts) (branching : 0 < tree.count) :
    0 < (joined blocked parts).count := by
  cases blocked with
  | true => exact List.length_pos_of_mem inParts
  | false => exact Nat.lt_of_lt_of_le branching (List.le_sum_of_mem (List.mem_map_of_mem inParts))

theorem count_joined_pos (nonempty : parts ≠ []) (branching : ∀ tree ∈ parts, 0 < tree.count) :
    0 < (joined blocked parts).count := by
  obtain ⟨first, inParts⟩ := List.exists_mem_of_ne_nil _ nonempty
  exact count_joined_pos_of_mem inParts (branching first inParts)

theorem block_joined_blocked (found : parts[part]? = some tree) :
    (joined true parts).block part = tree := by
  simp [joined, block, found]

theorem block_joined_flat : (joined false parts).block = flatBlock parts := rfl

theorem flatBlock_partOffset (found : parts[part]? = some tree) (inRange : entry < tree.count) :
    flatBlock parts (partOffset (parts.map count) part + entry) = tree.block entry := by
  induction parts generalizing part with
  | nil => simp at found
  | cons first others ih =>
      cases part with
      | zero =>
          obtain rfl : first = tree := by simpa using found
          simp [flatBlock, inRange]
      | succ part =>
          have := @ih part (by simpa using found)
          rw [List.map_cons, partOffset_cons_succ, flatBlock, if_neg (by omega), ← this]
          congr 1
          omega

theorem at?_joined_blocked {rest : List Nat} (found : parts[part]? = some tree) :
    (joined true parts).at? (part :: rest) = tree.at? rest := by
  have inRange : part < (joined true parts).count := (List.getElem?_eq_some_iff.mp found).1
  rw [at?, if_pos inRange, block_joined_blocked found]

theorem at?_joined_flat {rest : List Nat} (found : parts[part]? = some tree)
    (inRange : entry < tree.count) :
    (joined false parts).at? ((partOffset (parts.map count) part + entry) :: rest) =
      tree.at? (entry :: rest) := by
  have foundCount : (parts.map count)[part]? = some tree.count := by simp [found]
  have below : partOffset (parts.map count) part + entry < (joined false parts).count :=
    (tiling_consecutive (parts.map count)).lt_sum foundCount inRange
  rw [at?, at?, if_pos inRange, if_pos below, block_joined_flat, flatBlock_partOffset found inRange]

theorem eq_nil_of_whole (empty : tree.count = 0) (whole : tree.Whole index) : index = [] := by
  cases index with
  | nil => rfl
  | cons entry rest => exact absurd whole.1 (empty ▸ Nat.not_lt_zero entry)

theorem exists_cons_of_whole (branching : 0 < tree.count) (whole : tree.Whole index) :
    ∃ entry rest, index = entry :: rest ∧ entry < tree.count ∧ (tree.block entry).Whole rest := by
  cases index with
  | nil => exact absurd whole (Nat.ne_of_gt branching)
  | cons entry rest => exact ⟨entry, rest, rfl, whole⟩

theorem exists_part_of_whole (nonempty : 0 < (joined blocked parts).count)
    (whole : (joined blocked parts).Whole index) :
    ∃ part tree, parts[part]? = some tree ∧ ∃ inner, tree.Whole inner ∧
      index = .joined blocked (partOffset (parts.map count) part) part inner := by
  obtain ⟨entry, rest, rfl, inRange, wholeRest⟩ := exists_cons_of_whole nonempty whole
  cases blocked with
  | true =>
      have found : parts[entry]? = some parts[entry] := List.getElem?_eq_getElem inRange
      rw [block_joined_blocked found] at wholeRest
      exact ⟨entry, _, found, rest, wholeRest, rfl⟩
  | false =>
      obtain ⟨part, size, position, found, within, rfl⟩ := exists_part inRange
      obtain ⟨tree, foundTree, rfl⟩ : ∃ tree, parts[part]? = some tree ∧ tree.count = size := by
        simpa using found
      rw [block_joined_flat, flatBlock_partOffset foundTree within] at wholeRest
      exact ⟨part, tree, foundTree, position :: rest, ⟨within, wholeRest⟩, rfl⟩

theorem whole_joined_iff (nonempty : parts ≠ []) (branching : ∀ tree ∈ parts, 0 < tree.count) :
    (joined blocked parts).Whole index ↔
      ∃ part tree, parts[part]? = some tree ∧ ∃ inner, tree.Whole inner ∧
        index = .joined blocked (partOffset (parts.map count) part) part inner := by
  constructor
  · exact exists_part_of_whole (count_joined_pos nonempty branching)
  · rintro ⟨part, tree, found, inner, whole, rfl⟩
    cases blocked with
    | true =>
        refine ⟨(List.getElem?_eq_some_iff.mp found).1, ?_⟩
        rwa [block_joined_blocked found]
    | false =>
        obtain ⟨position, rest, rfl, within, wholeRest⟩ :=
          exists_cons_of_whole (branching tree (List.mem_of_getElem? found)) whole
        refine ⟨(tiling_consecutive (parts.map count)).lt_sum (by simp [found]) within, ?_⟩
        rwa [block_joined_flat, flatBlock_partOffset found within]

/-- Different indices of the parts, or indices of different parts, are joined to
different indices. -/
theorem joined_injective (branching : ∀ tree ∈ parts, 0 < tree.count)
    (found : parts[part]? = some tree) (whole : tree.Whole index)
    (found' : parts[part']? = some tree') (whole' : tree'.Whole index')
    (equal : MultiIndex.joined blocked (partOffset (parts.map count) part) part index =
      MultiIndex.joined blocked (partOffset (parts.map count) part') part' index') :
    part = part' ∧ index = index' := by
  cases blocked with
  | true => exact List.cons.inj equal
  | false =>
      obtain ⟨entry, rest, rfl, within, -⟩ :=
        exists_cons_of_whole (branching tree (List.mem_of_getElem? found)) whole
      obtain ⟨entry', rest', rfl, within', -⟩ :=
        exists_cons_of_whole (branching tree' (List.mem_of_getElem? found')) whole'
      obtain ⟨sameFirst, rfl⟩ := List.cons.inj equal
      obtain ⟨rfl, rfl⟩ := (tiling_consecutive (parts.map count)).injective
        (by simp [found]) within (by simp [found']) within' sameFirst
      exact ⟨rfl, rfl⟩

theorem length_joined (blocked : Bool) (offset part : Nat) (index : MultiIndex) :
    (MultiIndex.joined blocked offset part index).length = index.length + blocked.toNat := by
  cases blocked with
  | true => rfl
  | false => exact List.length_modifyHead

theorem length_le_of_whole_joined {depth : Nat}
    (bound : ∀ tree ∈ parts, ∀ index, tree.Whole index → index.length ≤ depth)
    (whole : (joined blocked parts).Whole index) : index.length ≤ depth + blocked.toNat := by
  rcases Nat.eq_zero_or_pos (joined blocked parts).count with empty | nonempty
  · rw [eq_nil_of_whole empty whole]
    exact Nat.zero_le _
  · obtain ⟨part, tree, found, inner, wholeInner, rfl⟩ := exists_part_of_whole nonempty whole
    rw [length_joined]
    exact Nat.add_le_add_right (bound tree (List.mem_of_getElem? found) inner wholeInner) _

theorem hasDepth_joined {depth : Nat} (branching : ∀ tree ∈ parts, 0 < tree.count)
    (bound : ∀ tree ∈ parts, ∀ index, tree.Whole index → index.length ≤ depth)
    (attained : ∃ tree ∈ parts, ∃ index, tree.Whole index ∧ index.length = depth) :
    (joined blocked parts).HasDepth (depth + blocked.toNat) := by
  obtain ⟨deepest, inParts, inner, wholeInner, rfl⟩ := attained
  have nonempty : parts ≠ [] := List.ne_nil_of_mem inParts
  constructor
  · exact fun index => length_le_of_whole_joined bound
  · obtain ⟨part, found⟩ := List.mem_iff_getElem?.mp inParts
    exact ⟨_, (whole_joined_iff nonempty branching).mpr ⟨part, deepest, found, inner, wholeInner, rfl⟩,
      length_joined ..⟩

theorem sum_total_parts : ∑ part ∈ Finset.range parts.length, (parts[part]?.getD .leaf).total =
    (parts.map total).sum := by
  induction parts with
  | nil => rfl
  | cons first others ih =>
      rw [List.length_cons, Finset.sum_range_succ', List.map_cons, List.sum_cons, Nat.add_comm, ← ih]
      simp

theorem sum_total_flatBlock :
    ∑ entry ∈ Finset.range (parts.map count).sum, (flatBlock parts entry).total =
      (parts.map (weight false)).sum := by
  induction parts with
  | nil => rfl
  | cons first others ih =>
      have inFirst : ∑ entry ∈ Finset.range first.count,
          (flatBlock (first :: others) entry).total = first.weight false := by
        refine Finset.sum_congr rfl (fun entry inRange => ?_)
        rw [flatBlock, if_pos (Finset.mem_range.mp inRange)]
      have inOthers : ∑ entry ∈ Finset.range (others.map count).sum,
          (flatBlock (first :: others) (first.count + entry)).total =
            (others.map (weight false)).sum := by
        rw [← ih]
        simp [flatBlock]
      rw [List.map_cons, List.sum_cons, Finset.sum_range_add, inFirst, inOthers, List.map_cons,
        List.sum_cons]

theorem total_joined_of_count_pos (nonempty : 0 < (joined blocked parts).count) :
    (joined blocked parts).total = (parts.map (weight blocked)).sum := by
  rw [total_of_count_pos nonempty]
  cases blocked with
  | true => exact sum_total_parts
  | false => exact sum_total_flatBlock

theorem total_joined (nonempty : parts ≠ []) (branching : ∀ tree ∈ parts, 0 < tree.count) :
    (joined blocked parts).total = (parts.map total).sum := by
  rw [total_joined_of_count_pos (count_joined_pos nonempty branching), map_weight branching]

theorem weight_le_total : tree.weight blocked ≤ tree.total := by
  rcases Nat.eq_zero_or_pos tree.count with empty | branching
  · cases blocked with
    | true => exact Nat.le_refl _
    | false => simp [weight, before, empty]
  · exact Nat.le_of_eq (weight_of_count_pos branching)

theorem total_joined_le (nonempty : parts ≠ []) :
    (joined blocked parts).total ≤ (parts.map total).sum := by
  rcases Nat.eq_zero_or_pos (joined blocked parts).count with empty | positive
  · obtain ⟨first, inParts⟩ := List.exists_mem_of_ne_nil _ nonempty
    rw [total_of_count_zero empty]
    exact first.total_pos.trans_le (List.le_sum_of_mem (List.mem_map_of_mem inParts))
  · rw [total_joined_of_count_pos positive]
    exact List.sum_le_sum (fun tree _ => weight_le_total)

end IndexTree

end DofNumbering
