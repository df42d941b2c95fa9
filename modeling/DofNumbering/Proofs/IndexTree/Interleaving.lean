import DofNumbering.Proofs.IndexTree.Joining
import Mathlib.Algebra.BigOperators.Ring.Finset

namespace DofNumbering

/-! Index trees of copies of one tree that take turns.

The number of the copy becomes the last entry, or it is folded into the first.
-/

/-- The index for an index of copy `part` of `count` copies. -/
def MultiIndex.interleaved (blocked : Bool) (count part : Nat) (index : MultiIndex) : MultiIndex :=
  if blocked then index ++ [part] else index.modifyHead (· * count + part)

namespace IndexTree

/-- The tree with one more entry, of `count` values, behind the whole indices. -/
def graft (count : Nat) : IndexTree → IndexTree
  | .leaf => .node count (fun _ => .leaf)
  | .node entries block =>
      if entries = 0 then .node count (fun _ => .leaf)
      else .node entries (fun entry => (block entry).graft count)

def interleaved (blocked : Bool) (count : Nat) (tree : IndexTree) : IndexTree :=
  if blocked then tree.graft count
  else .node (count * tree.count) (fun entry => tree.block (entry / count))

variable {tree : IndexTree} {blocked : Bool} {count part part' entry : Nat}
  {index index' : MultiIndex}

theorem graft_of_count_zero (empty : tree.count = 0) :
    tree.graft count = .node count (fun _ => .leaf) := by
  cases tree with
  | leaf => rfl
  | node entries block => exact if_pos empty

theorem graft_of_count_pos (branching : 0 < tree.count) :
    tree.graft count = .node tree.count (fun entry => (tree.block entry).graft count) := by
  cases tree with
  | leaf => exact absurd branching (Nat.lt_irrefl 0)
  | node entries block => exact if_neg (Nat.ne_of_gt branching)

theorem count_interleaved_blocked (branching : 0 < tree.count) :
    (interleaved true count tree).count = tree.count := by
  rw [interleaved, if_pos rfl, graft_of_count_pos branching]
  rfl

theorem block_interleaved_flat :
    (interleaved false count tree).block entry = tree.block (entry / count) := rfl

theorem count_interleaved_pos (positive : 0 < count) (branching : 0 < tree.count) :
    0 < (interleaved blocked count tree).count := by
  cases blocked with
  | true => rwa [count_interleaved_blocked branching]
  | false => exact Nat.mul_pos positive branching

theorem at?_interleaved_flat {rest : List Nat} (positive : 0 < count) :
    (interleaved false count tree).at? (entry * count :: rest) = tree.at? (entry :: rest) := by
  have inRange : entry * count < count * tree.count ↔ entry < tree.count := by
    rw [Nat.mul_comm count]
    exact Nat.mul_lt_mul_right positive
  change (if entry * count < count * tree.count then _ else none) = _
  rw [at?, block_interleaved_flat, Nat.mul_div_cancel _ positive]
  by_cases below : entry < tree.count
  · rw [if_pos below, if_pos (inRange.mpr below)]
  · rw [if_neg below, if_neg (mt inRange.mp below)]

theorem at?_graft {stem : List Nat} {sub : IndexTree} (found : tree.at? stem = some sub) :
    (tree.graft count).at? stem = some (sub.graft count) := by
  induction stem generalizing tree with
  | nil =>
      obtain rfl : tree = sub := Option.some.inj found
      rfl
  | cons entry rest ih =>
      simp only [at?] at found
      split at found
      · rename_i inRange
        rw [graft_of_count_pos (Nat.zero_lt_of_lt inRange), at?]
        exact (if_pos inRange).trans (ih found)
      · contradiction

theorem whole_graft_iff (positive : 0 < count) : (tree.graft count).Whole index ↔
    ∃ part < count, ∃ inner, tree.Whole inner ∧ index = inner ++ [part] := by
  induction index generalizing tree with
  | nil =>
      have branching : 0 < (tree.graft count).count := by
        cases tree with
        | leaf => exact positive
        | node entries block =>
            unfold graft
            split
            · exact positive
            · exact Nat.pos_of_ne_zero ‹_›
      simp [whole_nil, Nat.ne_of_gt branching]
  | cons entry rest ih =>
      by_cases empty : tree.count = 0
      · rw [graft_of_count_zero empty, whole_cons]
        constructor
        · rintro ⟨inRange, whole⟩
          cases rest with
          | nil => exact ⟨entry, inRange, [], empty, rfl⟩
          | cons entry' rest' => exact absurd whole.1 (Nat.not_lt_zero _)
        · rintro ⟨part, inRange, inner, whole, equal⟩
          cases inner with
          | nil =>
              obtain ⟨rfl, rfl⟩ := List.cons.inj equal
              exact ⟨inRange, rfl⟩
          | cons entry' rest' => exact absurd whole.1 (by omega)
      · rw [graft_of_count_pos (Nat.pos_of_ne_zero empty), whole_cons]
        constructor
        · rintro ⟨inRange, whole⟩
          obtain ⟨part, inCount, inner, wholeInner, rfl⟩ := ih.mp whole
          exact ⟨part, inCount, entry :: inner, ⟨inRange, wholeInner⟩, rfl⟩
        · rintro ⟨part, inCount, inner, whole, equal⟩
          cases inner with
          | nil => exact absurd whole empty
          | cons entry' rest' =>
              obtain ⟨rfl, rfl⟩ := List.cons.inj equal
              exact ⟨whole.1, ih.mpr ⟨part, inCount, rest', whole.2, rfl⟩⟩

theorem whole_interleaved_iff (positive : 0 < count) (branching : 0 < tree.count) :
    (interleaved blocked count tree).Whole index ↔
      ∃ part < count, ∃ inner, tree.Whole inner ∧ index = .interleaved blocked count part inner := by
  cases blocked with
  | true => exact whole_graft_iff positive
  | false =>
      constructor
      · intro whole
        obtain ⟨entry, rest, rfl, inRange, wholeRest⟩ :=
          exists_cons_of_whole (count_interleaved_pos positive branching) whole
        refine ⟨entry % count, Nat.mod_lt _ positive, entry / count :: rest, ⟨?_, wholeRest⟩, ?_⟩
        · exact Nat.div_lt_of_lt_mul inRange
        · simp [MultiIndex.interleaved, Nat.div_add_mod']
      · rintro ⟨part, inCount, inner, whole, rfl⟩
        obtain ⟨entry, rest, rfl, inRange, wholeRest⟩ := exists_cons_of_whole branching whole
        have copy : (entry * count + part) / count = entry := by
          rw [Nat.mul_comm, Nat.mul_add_div positive, Nat.div_eq_of_lt inCount, Nat.add_zero]
        refine ⟨?_, ?_⟩
        · have := (tiling_interleaved count tree.count).lt_sum
            (by rw [List.getElem?_replicate, if_pos inCount]) inRange
          rwa [List.sum_replicate_nat] at this
        · rwa [block_interleaved_flat, copy]

theorem interleaved_injective (branching : 0 < tree.count)
    (inCount : part < count) (whole : tree.Whole index)
    (inCount' : part' < count) (whole' : tree.Whole index')
    (equal : MultiIndex.interleaved blocked count part index =
      MultiIndex.interleaved blocked count part' index') :
    part = part' ∧ index = index' := by
  cases blocked with
  | true =>
      obtain ⟨sameIndex, samePart⟩ := List.append_inj' equal rfl
      exact ⟨List.singleton_inj.mp samePart, sameIndex⟩
  | false =>
      obtain ⟨entry, rest, rfl, -, -⟩ := exists_cons_of_whole branching whole
      obtain ⟨entry', rest', rfl, -, -⟩ := exists_cons_of_whole branching whole'
      obtain ⟨sameFirst, rfl⟩ := List.cons.inj equal
      -- the first entries are slots of copies that take turns
      obtain ⟨rfl, rfl⟩ := (tiling_interleaved count (entry + entry' + 1)).injective
        (by rw [List.getElem?_replicate, if_pos inCount]) (by omega)
        (by rw [List.getElem?_replicate, if_pos inCount']) (by omega) sameFirst
      exact ⟨rfl, rfl⟩

theorem length_interleaved (blocked : Bool) (count part : Nat) (index : MultiIndex) :
    (MultiIndex.interleaved blocked count part index).length = index.length + blocked.toNat := by
  cases blocked with
  | true => exact List.length_append
  | false => exact List.length_modifyHead

theorem length_le_of_whole_interleaved {depth : Nat} (positive : 0 < count)
    (branching : 0 < tree.count) (bound : ∀ index, tree.Whole index → index.length ≤ depth)
    (whole : (interleaved blocked count tree).Whole index) :
    index.length ≤ depth + blocked.toNat := by
  obtain ⟨part, inCount, inner, wholeInner, rfl⟩ :=
    (whole_interleaved_iff positive branching).mp whole
  rw [length_interleaved]
  exact Nat.add_le_add_right (bound inner wholeInner) _

theorem hasDepth_interleaved {depth : Nat} (positive : 0 < count) (branching : 0 < tree.count)
    (hasDepth : tree.HasDepth depth) :
    (interleaved blocked count tree).HasDepth (depth + blocked.toNat) := by
  constructor
  · exact fun index => length_le_of_whole_interleaved positive branching hasDepth.bound
  · obtain ⟨inner, wholeInner, rfl⟩ := hasDepth.attained
    exact ⟨_, (whole_interleaved_iff positive branching).mpr ⟨0, positive, inner, wholeInner, rfl⟩,
      length_interleaved ..⟩

/-- Behind a stem with blocks the sizes stay; behind a whole index there is one more
entry, and nothing behind that. -/
theorem size?_graft {stem : List Nat} {size : Nat} (sized : (tree.graft count).size? stem = some size) :
    ∃ inner, tree.size? stem = some inner ∧ (0 < inner → size = inner) ∧
      (inner = 0 → stem ≠ [] → ∃ outer, tree.size? stem.dropLast = some outer ∧
        size = if 0 < outer then count else 0) := by
  induction stem generalizing tree with
  | nil =>
      refine ⟨tree.count, rfl, fun branching => ?_, fun _ nonempty => absurd rfl nonempty⟩
      rw [graft_of_count_pos branching] at sized
      exact (Option.some.inj sized).symm
  | cons entry rest ih =>
      by_cases empty : tree.count = 0
      · have behind : size = 0 := by
          rw [graft_of_count_zero empty] at sized
          by_cases blockless : count = 0
          · subst blockless
            exact (Option.some.inj sized).symm
          · obtain ⟨-, inLeaf⟩ := of_size?_node (Nat.pos_of_ne_zero blockless) sized
            rw [size?_of_count_zero rfl] at inLeaf
            exact (Option.some.inj inLeaf).symm
        exact ⟨0, size?_of_count_zero empty _, nofun, fun _ _ => ⟨0, size?_of_count_zero empty _, behind⟩⟩
      · have branching : 0 < tree.count := Nat.pos_of_ne_zero empty
        rw [graft_of_count_pos branching] at sized
        obtain ⟨inRange, sizedRest⟩ := of_size?_node branching sized
        obtain ⟨inner, sizedInner, stays, behind⟩ := ih sizedRest
        refine ⟨inner, (size?_cons inRange).trans sizedInner, stays, fun noBlocks _ => ?_⟩
        cases rest with
        | nil =>
            have whole : (tree.block entry).count = 0 := (Option.some.inj sizedInner).trans noBlocks
            refine ⟨tree.count, rfl, ?_⟩
            rw [graft_of_count_zero whole] at sizedRest
            rw [if_pos branching]
            exact (Option.some.inj sizedRest).symm
        | cons entry' rest' =>
            obtain ⟨outer, sizedOuter, equal⟩ := behind noBlocks (List.cons_ne_nil entry' rest')
            exact ⟨outer, (size?_cons inRange).trans sizedOuter, equal⟩

theorem total_graft_of_count_pos (branching : 0 < tree.count) : (tree.graft count).total =
    ∑ entry ∈ Finset.range tree.count, ((tree.block entry).graft count).total := by
  rw [graft_of_count_pos branching]
  exact total_of_count_pos (show 0 < (node _ _).count from branching)

theorem total_graft_leaf (positive : 0 < count) : (leaf.graft count).total = count := by
  have nonempty : 0 < (leaf.graft count).count := positive
  rw [total_of_count_pos nonempty]
  simp [before, graft, IndexTree.count, block, total]

theorem total_graft : (tree.graft count).total = tree.total * (leaf.graft count).total := by
  induction tree with
  | leaf => exact (Nat.one_mul _).symm
  | node entries block ih =>
      by_cases empty : (node entries block).count = 0
      · rw [total_of_count_zero empty, graft_of_count_zero empty, Nat.one_mul]
        rfl
      · have branching := Nat.pos_of_ne_zero empty
        rw [total_graft_of_count_pos branching, total_of_count_pos branching, before,
          Finset.sum_mul]
        exact Finset.sum_congr rfl (fun entry _ => ih entry)

/-- An entry of no values adds nothing behind the whole indices. -/
theorem count_graft_zero : (tree.graft 0).count = tree.count := by
  rcases Nat.eq_zero_or_pos tree.count with empty | branching
  · rw [graft_of_count_zero empty, empty, IndexTree.count]
  · rw [graft_of_count_pos branching, IndexTree.count]

theorem whole_graft_zero_iff : (tree.graft 0).Whole index ↔ tree.Whole index := by
  induction index generalizing tree with
  | nil => rw [whole_nil, whole_nil, count_graft_zero]
  | cons entry rest ih =>
      rcases Nat.eq_zero_or_pos tree.count with empty | branching
      · simp [whole_cons, count_graft_zero, empty]
      · rw [graft_of_count_pos branching, whole_cons, whole_cons]
        exact and_congr_right (fun _ => ih)

theorem total_graft_zero : (tree.graft 0).total = tree.total := by
  rw [total_graft]
  exact Nat.mul_one _

theorem sum_range_div (value : Nat → Nat) (positive : 0 < count) (bound : Nat) :
    ∑ entry ∈ Finset.range (count * bound), value (entry / count) =
      count * ∑ entry ∈ Finset.range bound, value entry := by
  induction bound with
  | zero => simp
  | succ bound ih =>
      have last : ∑ entry ∈ Finset.range count, value ((count * bound + entry) / count) =
          count * value bound := by
        have same : ∀ entry ∈ Finset.range count,
            value ((count * bound + entry) / count) = value bound := by
          intro entry inRange
          rw [Nat.mul_add_div positive, Nat.div_eq_of_lt (Finset.mem_range.mp inRange), Nat.add_zero]
        rw [Finset.sum_congr rfl same]
        simp
      rw [Nat.mul_succ, Finset.sum_range_add, ih, last, Finset.sum_range_succ, Nat.mul_add]

theorem total_interleaved (positive : 0 < count) (branching : 0 < tree.count) :
    (interleaved blocked count tree).total = count * tree.total := by
  cases blocked with
  | true =>
      rw [interleaved, if_pos rfl, total_graft, total_graft_leaf positive, Nat.mul_comm]
  | false =>
      rw [total_of_count_pos branching,
        total_of_count_pos (count_interleaved_pos positive branching)]
      exact sum_range_div (fun entry => (tree.block entry).total) positive tree.count

end IndexTree

end DofNumbering
