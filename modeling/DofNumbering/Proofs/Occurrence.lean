import DofNumbering.Proofs.Basis.Lagrange
import DofNumbering.Proofs.Numbering.Laws

namespace DofNumbering

/-! The indices that occur on the elements of a grid.

Without copies nothing occurs, so this makes sense for exponents zero, too.
-/

/-- The indices that occur are the flat ones below the number of values of the first entry. -/
def Numbering.OccursFlat (numbering : Numbering) (numElements : Nat) : Prop :=
  ∀ index, numbering.Occurs numElements index ↔ ∃ number < numbering.root, index = [number]

theorem Tiling.exists_slot_iff {sizes : List Nat} {slot : Nat → Nat → Nat} (tiling : Tiling sizes slot)
    {index : MultiIndex} :
    (∃ part size position, sizes[part]? = some size ∧ position < size ∧
      index = [slot part position]) ↔ ∃ number < sizes.sum, index = [number] := by
  constructor
  · rintro ⟨part, size, position, found, within, rfl⟩
    exact ⟨_, tiling.lt_sum found within, rfl⟩
  · rintro ⟨number, below, rfl⟩
    obtain ⟨part, size, position, found, within, rfl⟩ := tiling.onto below
    exact ⟨part, size, position, found, within, rfl⟩

namespace Numbering

variable {blocked : Bool} {parts : List Numbering} {child : Numbering} {count numElements : Nat}
  {index : MultiIndex}

theorem occurs_joined_iff : (joined blocked parts).Occurs numElements index ↔
    ∃ i part, parts[i]? = some part ∧ ∃ inner, part.Occurs numElements inner ∧
      index = .joined blocked (partOffset (parts.map root) i) i inner := by
  constructor
  · rintro ⟨element, inGrid, j, below, rfl⟩
    obtain ⟨i, part, k, found, within, -, equal⟩ := exists_position below
    exact ⟨i, part, found, _, ⟨element, inGrid, k, within, rfl⟩, equal element⟩
  · rintro ⟨i, part, found, _, ⟨element, inGrid, k, within, rfl⟩, rfl⟩
    refine ⟨element, inGrid, partOffset (parts.map size) i + k, ?_, index_joined found within⟩
    exact (tiling_consecutive (parts.map size)).lt_sum (by simp [found]) within

theorem occurs_joined_cons_iff {i : Nat} {part : Numbering} (found : parts[i]? = some part) :
    (joined true parts).Occurs numElements (i :: index) ↔ part.Occurs numElements index := by
  rw [occurs_joined_iff]
  constructor
  · rintro ⟨i', part', found', inner, occurs, equal⟩
    obtain ⟨rfl, rfl⟩ := List.cons.inj equal
    obtain rfl := Option.some.inj (found.symm.trans found')
    exact occurs
  · exact fun occurs => ⟨i, part, found, index, occurs, rfl⟩

/-- A blocked index has an entry for the number of the part. -/
theorem not_occurs_joined_nil : ¬ (joined true parts).Occurs numElements [] := by
  rw [occurs_joined_iff]
  rintro ⟨i, part, -, inner, -, equal⟩
  exact List.cons_ne_nil _ _ equal.symm

theorem OccursFlat.not_nil (flat : child.OccursFlat numElements) : ¬ child.Occurs numElements [] := by
  rw [flat]
  rintro ⟨number, -, equal⟩
  exact List.cons_ne_nil _ _ equal.symm

theorem occurs_interleaved_iff : (interleaved blocked count child).Occurs numElements index ↔
    ∃ part < count, ∃ inner, child.Occurs numElements inner ∧
      index = .interleaved blocked count part inner := by
  constructor
  · rintro ⟨element, inGrid, j, below, rfl⟩
    have positive : 0 < count := Nat.pos_of_mul_pos_right (Nat.zero_lt_of_lt below)
    have inCopy : j / count < child.size := Nat.div_lt_of_lt_mul below
    exact ⟨j % count, Nat.mod_lt j positive, _, ⟨element, inGrid, j / count, inCopy, rfl⟩, rfl⟩
  · rintro ⟨part, inCount, _, ⟨element, inGrid, k, within, rfl⟩, rfl⟩
    refine ⟨element, inGrid, k * count + part, ?_, index_interleaved inCount⟩
    have slot := (tiling_interleaved count child.size).lt_sum
      (by rw [List.getElem?_replicate, if_pos inCount]) within
    rwa [List.sum_replicate_nat] at slot

theorem occurs_interleaved_append_iff {part : Nat} :
    (interleaved true count child).Occurs numElements (index ++ [part]) ↔
      part < count ∧ child.Occurs numElements index := by
  rw [occurs_interleaved_iff]
  constructor
  · rintro ⟨part', inCount, inner, occurs, equal⟩
    obtain ⟨rfl, last⟩ := List.append_inj' equal rfl
    obtain rfl := List.singleton_inj.mp last
    exact ⟨inCount, occurs⟩
  · rintro ⟨inCount, occurs⟩
    exact ⟨part, inCount, index, occurs, rfl⟩

theorem not_occurs_interleaved_nil : ¬ (interleaved true count child).Occurs numElements [] := by
  rw [occurs_interleaved_iff]
  rintro ⟨part, -, inner, -, equal⟩
  exact List.append_ne_nil_of_right_ne_nil inner (List.cons_ne_nil part []) equal.symm

theorem occursFlat_joined (flat : ∀ part ∈ parts, part.OccursFlat numElements) :
    (joined false parts).OccursFlat numElements := by
  intro index
  rw [occurs_joined_iff]
  refine Iff.trans ?_ (tiling_consecutive (parts.map root)).exists_slot_iff
  constructor
  · rintro ⟨i, part, found, inner, occurs, rfl⟩
    obtain ⟨number, below, rfl⟩ := (flat part (List.mem_of_getElem? found) inner).mp occurs
    exact ⟨i, part.root, number, by simp [found], below, rfl⟩
  · rintro ⟨i, _, number, foundRoot, below, rfl⟩
    obtain ⟨part, found, rfl⟩ : ∃ part, parts[i]? = some part ∧ part.root = _ := by
      simpa using foundRoot
    have occurs := (flat part (List.mem_of_getElem? found) [number]).mpr ⟨number, below, rfl⟩
    exact ⟨i, part, found, [number], occurs, rfl⟩

theorem occursFlat_interleaved (flat : child.OccursFlat numElements) :
    (interleaved false count child).OccursFlat numElements := by
  intro index
  have slots := @Tiling.exists_slot_iff _ _ (tiling_interleaved count child.root) index
  rw [List.sum_replicate_nat] at slots
  refine (occurs_interleaved_iff.trans ?_).trans slots
  constructor
  · rintro ⟨part, inCount, inner, occurs, rfl⟩
    obtain ⟨number, below, rfl⟩ := (flat inner).mp occurs
    exact ⟨part, child.root, number, by simp [inCount], below, rfl⟩
  · rintro ⟨part, _, number, found, below, rfl⟩
    obtain ⟨inCount, rfl⟩ := part_of_replicate found
    exact ⟨part, inCount, [number], (flat [number]).mpr ⟨number, below, rfl⟩, rfl⟩

theorem root_power_flat {exponent : Nat} {layout : Layout} :
    (child.power ⟨false, layout⟩ exponent).root = exponent * child.root := by
  cases layout <;> simp [power, copies, joined, interleaved]

theorem occursFlat_power {exponent : Nat} (layout : Layout) (flat : child.OccursFlat numElements) :
    (child.power ⟨false, layout⟩ exponent).OccursFlat numElements := by
  cases layout with
  | lexicographic =>
      exact occursFlat_joined (fun part inParts => List.eq_of_mem_replicate inParts ▸ flat)
  | interleaved => exact occursFlat_interleaved flat

/-- The indices of one copy, in each layout. -/
theorem occurs_power {exponent copy : Nat} (inRange : copy < exponent) (merging : Merging)
    (occurs : child.Occurs numElements index) :
    (child.power merging exponent).Occurs numElements
      (match merging.layout with
        | .lexicographic => .joined merging.blocked (copy * child.root) copy index
        | .interleaved => .interleaved merging.blocked exponent copy index) := by
  obtain ⟨blocked, layout⟩ := merging
  cases layout with
  | lexicographic =>
      refine occurs_joined_iff.mpr ⟨copy, child, by simp [inRange], index, occurs, ?_⟩
      rw [List.map_replicate, partOffset_replicate (Nat.le_of_lt inRange)]
  | interleaved => exact occurs_interleaved_iff.mpr ⟨copy, inRange, index, occurs, rfl⟩

end Numbering

theorem LagrangeBasis.occursFlat {basis : LagrangeBasis} (covered : basis.grid.Covered)
    (counted : dofCount basis.grid basis.finite = .ok basis.dimension) :
    basis.numbering.OccursFlat (basis.grid.size 0) := by
  intro index
  constructor
  · rintro ⟨element, inGrid, j, below, rfl⟩
    exact ⟨_, (basis.globalIndex_eq_ok (covered.triangle element inGrid) counted below).2, rfl⟩
  · rintro ⟨number, below, rfl⟩
    obtain ⟨element, inGrid, j, inElement, rfl⟩ := exists_number covered counted below
    exact ⟨element, inGrid, j, inElement, rfl⟩

end DofNumbering
