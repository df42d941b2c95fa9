import Mathlib.Algebra.BigOperators.Group.List.Basic
import Mathlib.Algebra.GroupWithZero.Nat

namespace DofNumbering

/-! Numberings of the positions of several parts as one range.

Part `k` has `sizes[k]` positions.  A tiling gives every position of every part a
slot of its own and leaves no slot out.  There are two of them: the parts follow
each other, or parts of one size take turns.
-/

/-- The first slot of a part if the parts follow each other. -/
def partOffset (sizes : List Nat) (part : Nat) : Nat := (sizes.take part).sum

structure Tiling (sizes : List Nat) (slot : (part position : Nat) → Nat) : Prop where
  lt_sum : ∀ {part size position}, sizes[part]? = some size → position < size →
    slot part position < sizes.sum
  injective : ∀ {part size position part' size' position'},
    sizes[part]? = some size → position < size →
    sizes[part']? = some size' → position' < size' →
    slot part position = slot part' position' → part = part' ∧ position = position'
  onto : ∀ {place}, place < sizes.sum → ∃ part size position,
    sizes[part]? = some size ∧ position < size ∧ slot part position = place

variable {sizes : List Nat} {part size position place : Nat}

@[simp] theorem partOffset_zero : partOffset sizes 0 = 0 := rfl

@[simp] theorem partOffset_cons_succ {first : Nat} :
    partOffset (first :: sizes) (part + 1) = first + partOffset sizes part := by
  simp [partOffset]

theorem partOffset_succ (found : sizes[part]? = some size) :
    partOffset sizes (part + 1) = partOffset sizes part + size := by
  simp [partOffset, List.take_add_one, found]

theorem partOffset_replicate {count : Nat} (le : part ≤ count) :
    partOffset (List.replicate count size) part = part * size := by
  simp [partOffset, List.take_replicate, Nat.min_eq_left le]

theorem partOffset_map {α : Type} {items : List α} {value : α → Nat} :
    partOffset (items.map value) part = ((items.take part).map value).sum := by
  rw [partOffset, List.map_take]

theorem partOffset_add_le_sum (found : sizes[part]? = some size) :
    partOffset sizes part + size ≤ sizes.sum := by
  induction sizes generalizing part with
  | nil => simp at found
  | cons first rest ih =>
      cases part with
      | zero =>
          obtain rfl : first = size := by simpa using found
          simp
      | succ part =>
          have := @ih part (by simpa using found)
          rw [partOffset_cons_succ, List.sum_cons]
          omega

theorem partOffset_add_le_of_lt {part' : Nat} (found : sizes[part]? = some size)
    (earlier : part < part') : partOffset sizes part + size ≤ partOffset sizes part' := by
  have inTake : (sizes.take part')[part]? = some size := by
    rw [List.getElem?_take_of_lt earlier, found]
  have le := partOffset_add_le_sum inTake
  rwa [partOffset, List.take_take, Nat.min_eq_left (Nat.le_of_lt earlier)] at le

theorem partOffset_mono {part' : Nat} (le : part ≤ part') :
    partOffset sizes part ≤ partOffset sizes part' := by
  obtain ⟨more, rfl⟩ := Nat.exists_eq_add_of_le le
  rw [partOffset, partOffset, List.take_add, List.sum_append]
  exact Nat.le_add_right _ _

/-- A slot comes before a part exactly if the part that it belongs to does. -/
theorem partOffset_add_lt_iff {part' : Nat} (found : sizes[part]? = some size)
    (within : position < size) :
    partOffset sizes part + position < partOffset sizes part' ↔ part < part' := by
  constructor
  · intro before
    by_contra behind
    have le := @partOffset_mono sizes _ _ (Nat.le_of_not_lt behind)
    omega
  · intro earlier
    have le := partOffset_add_le_of_lt found earlier
    omega

theorem exists_part (below : place < sizes.sum) : ∃ part size position,
    sizes[part]? = some size ∧ position < size ∧ partOffset sizes part + position = place := by
  induction sizes generalizing place with
  | nil => simp at below
  | cons first rest ih =>
      by_cases inFirst : place < first
      · exact ⟨0, first, place, rfl, inFirst, by simp⟩
      · rw [List.sum_cons] at below
        obtain ⟨part, size, position, found, within, equal⟩ := @ih (place - first) (by omega)
        exact ⟨part + 1, size, position, by simpa using found, within,
          by rw [partOffset_cons_succ]; omega⟩

theorem tiling_consecutive (sizes : List Nat) :
    Tiling sizes (fun part position => partOffset sizes part + position) where
  lt_sum found within := by
    have := partOffset_add_le_sum found
    omega
  injective {part _ _ part' _ _} found within found' within' equal := by
    -- a part ends before every later part begins
    rcases Nat.lt_trichotomy part part' with earlier | rfl | later
    · have := partOffset_add_le_of_lt found earlier
      omega
    · exact ⟨rfl, by omega⟩
    · have := partOffset_add_le_of_lt found' later
      omega
  onto := exists_part

theorem part_of_replicate {count size' : Nat}
    (found : (List.replicate count size)[part]? = some size') : part < count ∧ size = size' := by
  simpa [List.getElem?_replicate] using found

theorem tiling_interleaved (count size : Nat) :
    Tiling (List.replicate count size) (fun part position => position * count + part) where
  lt_sum found within := by
    obtain ⟨inRange, rfl⟩ := part_of_replicate found
    have le := Nat.mul_le_mul_right count (Nat.succ_le_of_lt within)
    rw [Nat.succ_mul] at le
    rw [List.sum_replicate_nat, Nat.mul_comm count]
    omega
  injective {part _ position part' _ position'} found _ found' _ equal := by
    obtain ⟨inRange, -⟩ := part_of_replicate found
    obtain ⟨inRange', -⟩ := part_of_replicate found'
    have positive : 0 < count := Nat.zero_lt_of_lt inRange
    have samePart : part = part' := by
      simpa [Nat.mul_add_mod', Nat.mod_eq_of_lt inRange, Nat.mod_eq_of_lt inRange']
        using congrArg (· % count) equal
    subst samePart
    exact ⟨rfl, Nat.eq_of_mul_eq_mul_right positive (Nat.add_right_cancel equal)⟩
  onto {place} below := by
    rw [List.sum_replicate_nat] at below
    have positive : 0 < count := Nat.pos_of_mul_pos_right (Nat.zero_lt_of_lt below)
    refine ⟨place % count, size, place / count, ?_, ?_, Nat.div_add_mod' ..⟩
    · rw [List.getElem?_replicate, if_pos (Nat.mod_lt _ positive)]
    · exact Nat.div_lt_of_lt_mul below

end DofNumbering
