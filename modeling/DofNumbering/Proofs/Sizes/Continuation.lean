import DofNumbering.Proofs.Basis.Container
import DofNumbering.Proofs.Sizes.Answers

namespace DofNumbering

/-! Stems that a basis counts something after, and the degrees of freedom they begin.

A node passes the rest of a stem on to one of its parts.  What the part counts there
belongs to the node as well if the indices of the part continue the whole stem.  So the
nodes are followed from the outside in, with the first entry in range where a node above
has checked it.
-/

/-- Some degree of freedom has an index that continues the stem. -/
def Numbering.OccursAfter (numbering : Numbering) (numElements : Nat) (stem : List Nat) : Prop :=
  ∃ entry rest, numbering.Occurs numElements (stem ++ entry :: rest)

/-- Nothing is counted after the stem unless degrees of freedom continue it. -/
structure Basis.FaithfulAt (basis : Basis) (numbering : Numbering) (numElements : Nat)
    (stem : List Nat) : Prop where
  noOverflow : basis.size stem ≠ .error .arithmetic
  continued : ∀ size, basis.size stem = .ok size → 0 < size → numbering.OccursAfter numElements stem

/-- The basis is faithful at all stems, or at those with a first entry in range if these
are checked. -/
def Basis.Faithful (basis : Basis) (numbering : Numbering) (numElements : Nat) (checked : Bool) :
    Prop :=
  ∀ stem, (checked = true → ∀ first ∈ stem.head?, first < numbering.root) →
    basis.FaithfulAt numbering numElements stem

variable {grid : GridView} {basis child part : Basis} {numbering partNumbering : Numbering}
  {least exponent numElements : Nat} {merging : Merging} {blocked checked : Bool}
  {members : Members} {stem partStem : List Nat}

namespace Basis

theorem faithfulAt_of_zero (none : ∀ size, basis.size stem = .ok size → size = 0)
    (noOverflow : basis.size stem ≠ .error .arithmetic) :
    basis.FaithfulAt numbering numElements stem :=
  ⟨noOverflow, fun size sized positive => absurd (none size sized) (Nat.ne_of_gt positive)⟩

theorem faithfulAt_of_eq_zero (none : basis.size stem = .ok 0) :
    basis.FaithfulAt numbering numElements stem :=
  faithfulAt_of_zero (fun _ sized => Except.ok.inj (sized.symm.trans none)) (none ▸ nofun)

theorem faithfulAt_of_error (fault : Fault) (other : fault ≠ .arithmetic)
    (fails : basis.size stem = .error fault) : basis.FaithfulAt numbering numElements stem := by
  refine faithfulAt_of_zero (fun size sized => ?_) (fun overflow => other ?_)
  · exact absurd (fails.symm.trans sized) nofun
  · exact Except.error.inj (fails.symm.trans overflow)

/-- A basis that passes a stem on to a part is as faithful as the part, if the indices of the
part that continue its stem become indices that continue the stem. -/
theorem FaithfulAt.of_part (faithful : part.FaithfulAt partNumbering numElements partStem)
    (passes : basis.size stem = part.size partStem)
    (lifts : partNumbering.OccursAfter numElements partStem →
      numbering.OccursAfter numElements stem) : basis.FaithfulAt numbering numElements stem := by
  constructor
  · rw [passes]
    exact faithful.noOverflow
  · intro size sized positive
    exact lifts (faithful.continued size (passes.symm.trans sized) positive)

theorem Faithful.nil (faithful : basis.Faithful numbering numElements checked) :
    basis.FaithfulAt numbering numElements [] :=
  faithful [] (fun _ _ isHead => absurd isHead (Option.not_mem_none _))

theorem Faithful.cons {first : Nat} {rest : List Nat}
    (faithful : basis.Faithful numbering numElements checked)
    (inRange : checked = true → first < numbering.root) :
    basis.FaithfulAt numbering numElements (first :: rest) :=
  faithful (first :: rest) (fun isChecked _ isHead => Option.mem_some.mp isHead ▸ inRange isChecked)

theorem faithful_of_cons (nil : basis.FaithfulAt numbering numElements [])
    (cons : ∀ first rest, (checked = true → first < numbering.root) →
      basis.FaithfulAt numbering numElements (first :: rest)) :
    basis.Faithful numbering numElements checked := by
  intro stem inRange
  cases stem with
  | nil => exact nil
  | cons first rest => exact cons first rest (fun isChecked => inRange isChecked first rfl)

end Basis

section Flat

/-- A flat basis counts nothing after a first entry. -/
theorem Basis.Answers.eq_zero_of_flat (answers : basis.Answers) (flat : basis.maxIndexLength = 1)
    {first size : Nat} {rest : List Nat} (sized : basis.size (first :: rest) = .ok size) :
    size = 0 := by
  have answer := answers (first :: rest)
  rw [sized, flat] at answer
  cases answer with
  | size short =>
      by_contra some
      have tooShort := short (Nat.pos_of_ne_zero some)
      rw [List.length_cons] at tooShort
      omega

theorem Numbered.maxIndexLength_of_isFlat (numbered : Numbered grid least basis numbering)
    (flat : basis.description.isFlat = true) : basis.maxIndexLength = 1 := by
  induction numbered with
  | lagrange _ => rfl
  | @power child _ merging _ _ _ ih =>
      obtain ⟨notBlocked, childFlat⟩ :
          merging.blocked = false ∧ child.description.isFlat = true := by
        simpa [PowerBasis.toBasis, Description.isFlat] using flat
      change child.maxIndexLength + merging.blocked.toNat = 1
      rw [ih childFlat, notBlocked]
      rfl
  | @composite blocked members _ _ created _ ih =>
      cases CompositeBasis.create_eq_ok created
      obtain ⟨rfl, membersFlat⟩ : blocked = false ∧
          Description.allFlat (members.toList.map Basis.description) = true := by
        simpa [CompositeBasis.toBasis, Description.isFlat] using flat
      exact CompositeBasis.maxIndexLength_of_flat (fun member inMembers => ih member inMembers
        (Description.allFlat_iff.mp membersFlat _ (List.mem_map_of_mem inMembers)))
  | tagged _ _ ih => exact ih flat

theorem Numbered.occursFlat (numbered : Numbered grid least basis numbering)
    (covered : grid.Covered) (flat : basis.description.isFlat = true) :
    numbering.OccursFlat (grid.size 0) := by
  induction numbered with
  | lagrange created =>
      obtain ⟨rfl, counted⟩ := LagrangeBasis.create_eq_ok created
      exact LagrangeBasis.occursFlat covered counted
  | @power child _ merging _ _ _ ih =>
      obtain ⟨blocked, layout⟩ := merging
      obtain ⟨rfl, childFlat⟩ : blocked = false ∧ child.description.isFlat = true := by
        simpa [PowerBasis.toBasis, Description.isFlat] using flat
      exact Numbering.occursFlat_power layout (ih childFlat)
  | @composite blocked members _ _ created _ ih =>
      cases CompositeBasis.create_eq_ok created
      obtain ⟨rfl, membersFlat⟩ : blocked = false ∧
          Description.allFlat (members.toList.map Basis.description) = true := by
        simpa [CompositeBasis.toBasis, Description.isFlat] using flat
      refine Numbering.occursFlat_joined (List.forall_mem_map.mpr fun member inMembers => ?_)
      exact ih member inMembers
        (Description.allFlat_iff.mp membersFlat _ (List.mem_map_of_mem inMembers))
  | tagged _ _ ih => exact ih flat

end Flat

/-- If the description has degrees of freedom, so has the basis. -/
theorem Numbered.exists_occurs (numbered : Numbered grid least basis numbering)
    (covered : grid.Covered) (vertices : 0 < grid.size 2) (room : numbering.dofs < Index.limit)
    (has : basis.description.hasDofs = true) : ∃ index, numbering.Occurs (grid.size 0) index := by
  induction numbered with
  | lagrange created =>
      have numbered : Numbered grid least _ _ := .lagrange created
      have first := (numbered.rooted vertices room).dofsPos
      exact ⟨[0], (numbered.occursFlat covered rfl [0]).mpr ⟨0, first, rfl⟩⟩
  | @power child _ merging exponent _ _ ih =>
      obtain ⟨copies, childHas⟩ : 0 < exponent ∧ child.description.hasDofs = true := by
        simpa [PowerBasis.toBasis, Description.hasDofs] using has
      obtain ⟨index, occurs⟩ := ih (Nat.lt_of_le_of_lt Numbering.dofs_le_power room) childHas
      exact ⟨_, Numbering.occurs_power copies merging occurs⟩
  | @composite blocked members _ numbering created _ ih =>
      cases CompositeBasis.create_eq_ok created
      obtain ⟨_, inDescriptions, memberHas⟩ := Description.anyHasDofs_iff.mp has
      obtain ⟨member, inMembers, rfl⟩ := List.mem_map.mp inDescriptions
      have inParts := List.mem_map_of_mem (f := numbering) inMembers
      obtain ⟨index, occurs⟩ := ih member inMembers (Members.dofs_lt room inMembers) memberHas
      obtain ⟨i, found⟩ := List.mem_iff_getElem?.mp inParts
      exact ⟨_, Numbering.occurs_joined_iff.mpr ⟨i, _, found, index, occurs, rfl⟩⟩
  | tagged _ _ ih => exact ih room has

section BlockedPowers

theorem PowerBasis.faithful_blockedLexicographic
    (occurs : 0 < exponent → ∃ index, numbering.Occurs numElements index)
    (faithful : 0 < exponent → child.Faithful numbering numElements false) :
    (PowerBasis.toBasis ⟨⟨true, .lexicographic⟩, exponent, child⟩).Faithful
      (numbering.power ⟨true, .lexicographic⟩ exponent) numElements checked := by
  refine Basis.faithful_of_cons ?_ (fun first rest _ => ?_)
  · refine ⟨nofun, fun size sized positive => ?_⟩
    obtain rfl : exponent = size := Except.ok.inj sized
    obtain ⟨index, occurs⟩ := occurs positive
    exact ⟨0, index, Numbering.occurs_power positive _ occurs⟩
  · by_cases inRange : first < exponent
    · refine (faithful (Nat.zero_lt_of_lt inRange) rest nofun).of_part (if_pos inRange) ?_
      rintro ⟨entry, others, occurs⟩
      exact ⟨entry, others, Numbering.occurs_power inRange _ occurs⟩
    · exact Basis.faithfulAt_of_error (.powerChild first exponent) nofun (if_neg inRange)

/-- A nonzero size is that of the child, or it is taken for that after a whole index of it. -/
theorem PowerBasis.of_blockedInterleavedSize {size : Nat}
    (sized : blockedInterleavedSize ⟨merging, exponent, child⟩ stem = .ok size)
    (positive : 0 < size) : child.size stem = .ok size ∨
      child.size stem = .ok 0 ∧ stem ≠ [] ∧ size = exponent ∧
        ∃ last, child.size stem.dropLast = .ok last ∧ 0 < last := by
  obtain ⟨inner, sizedChild, sized⟩ := bind_eq_ok_iff.mp sized
  by_cases here : 0 < inner ∨ stem = []
  · rw [if_pos here] at sized
    exact .inl (sized ▸ sizedChild)
  · rw [if_neg here] at sized
    obtain ⟨none, notRoot⟩ := not_or.mp here
    obtain rfl := Nat.eq_zero_of_not_pos none
    obtain ⟨last, sizedInit, sized⟩ := bind_eq_ok_iff.mp sized
    have whole : 0 < last := by
      by_contra none
      rw [if_neg none] at sized
      exact absurd (Except.ok.inj sized ▸ positive) (Nat.lt_irrefl 0)
    rw [if_pos whole] at sized
    exact .inr ⟨sizedChild, notRoot, (Except.ok.inj sized).symm, last, sizedInit, whole⟩

theorem PowerBasis.noOverflow_blockedInterleavedSize
    (noOverflow : child.size stem ≠ .error .arithmetic)
    (noOverflowInit : child.size stem.dropLast ≠ .error .arithmetic) :
    blockedInterleavedSize ⟨merging, exponent, child⟩ stem ≠ .error .arithmetic := by
  rw [blockedInterleavedSize]
  cases answered : child.size stem with
  | error fault =>
      rw [error_bind]
      exact answered ▸ noOverflow
  | ok size =>
      rw [ok_bind]
      split
      · simp
      · cases answeredInit : child.size stem.dropLast with
        | error fault =>
            rw [error_bind]
            exact answeredInit ▸ noOverflowInit
        | ok last => simp [ok_bind]

/-- The indices of the child have one entry, so only one in range stands before the number
of the copy. -/
theorem PowerBasis.faithful_blockedInterleaved (copies : 0 < exponent)
    (rooted : child.Rooted numbering) (occurs : numbering.OccursFlat numElements)
    (none : ∀ first rest size, child.size (first :: rest) = .ok size → size = 0)
    (faithful : child.Faithful numbering numElements true) :
    (PowerBasis.toBasis ⟨⟨true, .interleaved⟩, exponent, child⟩).Faithful
      (numbering.power ⟨true, .interleaved⟩ exponent) numElements true := by
  have before : ∀ first < numbering.root,
      (numbering.power ⟨true, .interleaved⟩ exponent).Occurs numElements [first, 0] :=
    fun first inRange => Numbering.occurs_power copies ⟨true, .interleaved⟩
      ((occurs [first]).mpr ⟨first, inRange, rfl⟩)
  refine Basis.faithful_of_cons ?_ (fun first rest inRange => ?_)
  · refine ⟨noOverflow_blockedInterleavedSize faithful.nil.noOverflow faithful.nil.noOverflow,
      fun size sized positive => ?_⟩
    rcases of_blockedInterleavedSize sized positive with sizedChild | ⟨-, notRoot, -⟩
    · obtain rfl := Except.ok.inj (rooted.sizeNil.symm.trans sizedChild)
      exact ⟨0, [0], before 0 positive⟩
    · exact absurd rfl notRoot
  · have faithfulAt : ∀ rest, child.FaithfulAt numbering numElements (first :: rest) :=
      fun rest => faithful.cons inRange
    constructor
    · refine noOverflow_blockedInterleavedSize (faithfulAt rest).noOverflow ?_
      cases rest with
      | nil => exact faithful.nil.noOverflow
      | cons second rest => exact (faithfulAt (second :: rest).dropLast).noOverflow
    · intro size sized positive
      rcases of_blockedInterleavedSize sized positive with
        sizedChild | ⟨-, -, -, last, sizedInit, whole⟩
      · exact absurd (none first rest size sizedChild) (Nat.ne_of_gt positive)
      · cases rest with
        | nil => exact ⟨0, [], before first (inRange rfl)⟩
        | cons second rest => exact absurd (none first _ last sizedInit) (Nat.ne_of_gt whole)

end BlockedPowers

section FlatPowers

variable {childFirst : Nat → Nat → Except Fault Nat}

/-- Before any entry a flat power counts the first entries of all copies. -/
theorem PowerBasis.faithfulAt_flat_nil {layout : Layout} (rooted : child.Rooted numbering)
    (rootedPower : (PowerBasis.toBasis ⟨⟨false, layout⟩, exponent, child⟩).Rooted
      (numbering.power ⟨false, layout⟩ exponent))
    (faithfulAt : 0 < exponent → child.FaithfulAt numbering numElements []) :
    (PowerBasis.toBasis ⟨⟨false, layout⟩, exponent, child⟩).FaithfulAt
      (numbering.power ⟨false, layout⟩ exponent) numElements [] := by
  have sizeNil := rootedPower.sizeNil
  rw [Numbering.root_power_flat] at sizeNil
  refine ⟨by rw [sizeNil]; exact nofun, fun size sized positive => ?_⟩
  obtain rfl := Except.ok.inj (sizeNil.symm.trans sized)
  have copies := Nat.pos_of_mul_pos_right positive
  obtain ⟨entry, rest, occurs⟩ := (faithfulAt copies).continued _ rooted.sizeNil
    (Nat.pos_of_mul_pos_left positive)
  cases layout with
  | lexicographic => exact ⟨_, rest, Numbering.occurs_power copies ⟨false, .lexicographic⟩ occurs⟩
  | interleaved => exact ⟨_, rest, Numbering.occurs_power copies ⟨false, .interleaved⟩ occurs⟩

/-- Behind a first entry it is as faithful as the child behind the first entry that it makes
of that. -/
theorem PowerBasis.faithfulAt_flatSize {first : Nat} {rest : List Nat} {power : Numbering}
    (inner : Nat) (rooted : child.Rooted numbering)
    (sizes : ∀ stem, PowerBasis.size ⟨merging, exponent, child⟩ stem =
      flatSize ⟨merging, exponent, child⟩ childFirst stem)
    (found : 0 < numbering.root → childFirst first numbering.root = .ok inner)
    (faithfulAt : 0 < numbering.root → child.FaithfulAt numbering numElements (inner :: rest))
    (lifts : numbering.OccursAfter numElements (inner :: rest) →
      power.OccursAfter numElements (first :: rest)) :
    (PowerBasis.toBasis ⟨merging, exponent, child⟩).FaithfulAt power numElements
      (first :: rest) := by
  by_cases empty : numbering.root = 0
  · exact Basis.faithfulAt_of_eq_zero
      ((sizes _).trans (flatSize_cons_of_empty (empty ▸ rooted.sizeNil)))
  · have positive := Nat.pos_of_ne_zero empty
    exact (faithfulAt positive).of_part
      ((sizes _).trans (flatSize_cons rooted positive (found positive) rest)) lifts

/-- The child of a flat power gets a first entry in range if the power does. -/
theorem PowerBasis.faithful_flatInterleaved (rooted : child.Rooted numbering)
    (rootedPower : (PowerBasis.toBasis ⟨⟨false, .interleaved⟩, exponent, child⟩).Rooted
      (numbering.power ⟨false, .interleaved⟩ exponent))
    (safe : exponent = 0 → checked = true)
    (faithful : 0 < exponent → child.Faithful numbering numElements checked) :
    (PowerBasis.toBasis ⟨⟨false, .interleaved⟩, exponent, child⟩).Faithful
      (numbering.power ⟨false, .interleaved⟩ exponent) numElements checked := by
  refine Basis.faithful_of_cons (faithfulAt_flat_nil rooted rootedPower
    (fun copies => (faithful copies).nil)) (fun first rest inRange => ?_)
  rw [Numbering.root_power_flat] at inRange
  have copies : 0 < exponent := by
    by_contra none
    obtain rfl := Nat.eq_zero_of_not_pos none
    have below := inRange (safe rfl)
    rw [Nat.zero_mul] at below
    exact absurd below (Nat.not_lt_zero first)
  refine faithfulAt_flatSize (first / exponent) rooted (fun _ => rfl)
    (fun _ => if_neg (Nat.ne_of_gt copies)) (fun _ => (faithful copies).cons ?_) ?_
  · intro isChecked
    rw [Nat.div_lt_iff_lt_mul copies, Nat.mul_comm]
    exact inRange isChecked
  · rintro ⟨entry, others, occurs⟩
    refine ⟨entry, others, ?_⟩
    have copy := Numbering.occurs_power (Nat.mod_lt first copies) ⟨false, .interleaved⟩ occurs
    simpa [MultiIndex.interleaved, Nat.div_add_mod'] using copy

/-- The child of a flat lexicographic power always gets a first entry in range, also for one
that is not. -/
theorem PowerBasis.faithful_flatLexicographic (rooted : child.Rooted numbering)
    (rootedPower : (PowerBasis.toBasis ⟨⟨false, .lexicographic⟩, exponent, child⟩).Rooted
      (numbering.power ⟨false, .lexicographic⟩ exponent))
    (faithful : 0 < exponent → child.Faithful numbering numElements true) :
    (PowerBasis.toBasis ⟨⟨false, .lexicographic⟩, exponent, child⟩).Faithful
      (numbering.power ⟨false, .lexicographic⟩ exponent) numElements true := by
  refine Basis.faithful_of_cons (faithfulAt_flat_nil rooted rootedPower
    (fun copies => (faithful copies).nil)) (fun first rest inRange => ?_)
  have below := inRange rfl
  rw [Numbering.root_power_flat] at below
  have copies := Nat.pos_of_mul_pos_right (Nat.zero_lt_of_lt below)
  have positive := Nat.pos_of_mul_pos_left (Nat.zero_lt_of_lt below)
  refine faithfulAt_flatSize (first % numbering.root) rooted (fun _ => rfl)
    (fun _ => if_neg (Nat.ne_of_gt positive))
    (fun _ => (faithful copies).cons (fun _ => Nat.mod_lt first positive)) ?_
  rintro ⟨entry, others, occurs⟩
  refine ⟨entry, others, ?_⟩
  have inRange : first / numbering.root < exponent := (Nat.div_lt_iff_lt_mul positive).mpr below
  have copy := Numbering.occurs_power inRange ⟨false, .lexicographic⟩ occurs
  simpa [MultiIndex.joined, Nat.div_add_mod'] using copy

/-- Also for one that is not in range, if the child counts nothing behind it. -/
theorem PowerBasis.faithful_flatLexicographic_of_flat (rooted : child.Rooted numbering)
    (rootedPower : (PowerBasis.toBasis ⟨⟨false, .lexicographic⟩, exponent, child⟩).Rooted
      (numbering.power ⟨false, .lexicographic⟩ exponent))
    (flat : numbering.OccursFlat numElements)
    (faithful : child.Faithful numbering numElements true) :
    (PowerBasis.toBasis ⟨⟨false, .lexicographic⟩, exponent, child⟩).Faithful
      (numbering.power ⟨false, .lexicographic⟩ exponent) numElements checked := by
  refine Basis.faithful_of_cons (faithfulAt_flat_nil rooted rootedPower
    (fun _ => faithful.nil)) (fun first rest _ => ?_)
  refine faithfulAt_flatSize (first % numbering.root) rooted (fun _ => rfl)
    (fun positive => if_neg (Nat.ne_of_gt positive))
    (fun positive => faithful.cons (fun _ => Nat.mod_lt first positive)) ?_
  rintro ⟨entry, others, occurs⟩
  obtain ⟨number, -, equal⟩ := (flat _).mp occurs
  simp at equal

end FlatPowers

section Composites

variable {numbering : Basis → Numbering}

theorem CompositeBasis.faithful_blocked
    (occurs : ∃ member ∈ members.toList, ∃ index, (numbering member).Occurs numElements index)
    (faithful : ∀ member ∈ members.toList,
      member.Faithful (numbering member) numElements false) :
    (CompositeBasis.toBasis ⟨true, members⟩).Faithful
      (.joined true (members.toList.map numbering)) numElements checked := by
  refine Basis.faithful_of_cons ?_ (fun first rest _ => ?_)
  · refine ⟨nofun, fun size sized positive => ?_⟩
    obtain ⟨member, inMembers, index, occurs⟩ := occurs
    obtain ⟨i, found⟩ := List.mem_iff_getElem?.mp (List.mem_map_of_mem (f := numbering) inMembers)
    exact ⟨i, index, (Numbering.occurs_joined_cons_iff found).mpr occurs⟩
  · by_cases inRange : first < members.count
    · refine (faithful _ (members.at_mem inRange) rest nofun).of_part
        (size_blocked_cons inRange rest) ?_
      rintro ⟨entry, others, occurs⟩
      have found : (members.toList.map numbering)[first]? = some (numbering (members.at first)) := by
        simp [members.getElem?_toList inRange]
      exact ⟨entry, others, (Numbering.occurs_joined_cons_iff found).mpr occurs⟩
    · exact Basis.faithfulAt_of_error (.compositeChild first) nofun (if_neg inRange)

/-- A flat composite only passes first entries in range on. -/
theorem CompositeBasis.faithful_flat
    (rooted : ∀ member ∈ members.toList, member.Rooted (numbering member))
    (room : ((members.toList.map numbering).map Numbering.root).sum < Index.limit)
    (faithful : ∀ member ∈ members.toList, member.Faithful (numbering member) numElements true) :
    (CompositeBasis.toBasis ⟨false, members⟩).Faithful
      (.joined false (members.toList.map numbering)) numElements checked := by
  have sizeNil : CompositeBasis.size ⟨false, members⟩ [] = _ :=
    size_nil (fun member inMembers => (rooted member inMembers).sizeNil) room
  refine Basis.faithful_of_cons ?_ (fun first rest _ => ?_)
  · refine ⟨sizeNil.trans_ne nofun, fun size sized positive => ?_⟩
    obtain rfl := Except.ok.inj (sizeNil.symm.trans sized)
    obtain ⟨_, inRoots, some⟩ := List.sum_pos_iff_exists_pos_nat.mp positive
    obtain ⟨_, inParts, rfl⟩ := List.mem_map.mp inRoots
    obtain ⟨member, inMembers, rfl⟩ := List.mem_map.mp inParts
    obtain ⟨entry, rest, occurs⟩ := (faithful member inMembers).nil.continued _
      (rooted member inMembers).sizeNil some
    obtain ⟨i, found⟩ := List.mem_iff_getElem?.mp inParts
    exact ⟨_, rest, Numbering.occurs_joined_iff.mpr ⟨i, _, found, _, occurs, rfl⟩⟩
  · rcases flatSize_cases rooted first 0 (by omega) (Nat.zero_le first) with
      ⟨-, none⟩ | ⟨i, member, found, inner, below, equal, passes⟩
    · exact Basis.faithfulAt_of_eq_zero (none rest)
    · have inMembers := List.mem_of_getElem? found
      refine ((faithful member inMembers).cons (fun _ => below)).of_part (passes rest) ?_
      rintro ⟨entry, others, occurs⟩
      refine ⟨entry, others, Numbering.occurs_joined_iff.mpr ⟨i, numbering member, ?_, _, occurs, ?_⟩⟩
      · rw [List.getElem?_map, found]
        rfl
      · rw [equal, Nat.zero_add]
        rfl

end Composites

theorem PowerBasis.faithful (rooted : child.Rooted numbering)
    (rootedPower : (PowerBasis.toBasis ⟨merging, exponent, child⟩).Rooted
      (numbering.power merging exponent))
    (occurs : child.description.hasDofs = true → ∃ index, numbering.Occurs numElements index)
    (occursFlat : child.description.isFlat = true → numbering.OccursFlat numElements)
    (none : child.description.isFlat = true → ∀ first rest size,
      child.size (first :: rest) = .ok size → size = 0)
    (faithful : ∀ checked, child.description.faithful checked = true →
      child.Faithful numbering numElements checked)
    (described : (Description.power child.description exponent merging).faithful checked = true) :
    (PowerBasis.toBasis ⟨merging, exponent, child⟩).Faithful
      (numbering.power merging exponent) numElements checked := by
  have ofFlat := fun childFlat => faithful true (Description.faithful_of_isFlat _ childFlat)
  obtain ⟨blocked, layout⟩ := merging
  cases blocked with
  | true =>
      cases layout with
      | lexicographic =>
          have described : exponent = 0 ∨
              child.description.hasDofs = true ∧ child.description.faithful false = true := by
            simpa [Description.faithful] using described
          have withCopies := fun copies : 0 < exponent =>
            described.resolve_left (Nat.ne_of_gt copies)
          exact faithful_blockedLexicographic (fun copies => occurs (withCopies copies).1)
            (fun copies => faithful false (withCopies copies).2)
      | interleaved =>
          obtain ⟨⟨copies, rfl⟩, childFlat⟩ :
              (0 < exponent ∧ checked = true) ∧ child.description.isFlat = true := by
            simpa [Description.faithful] using described
          exact faithful_blockedInterleaved copies rooted (occursFlat childFlat) (none childFlat)
            (ofFlat childFlat)
  | false =>
      cases layout with
      | lexicographic =>
          have described : child.description.isFlat = true ∨
              checked = true ∧ (exponent = 0 ∨ child.description.faithful true = true) := by
            simpa [Description.faithful] using described
          rcases described with childFlat | ⟨rfl, childFaithful⟩
          · exact faithful_flatLexicographic_of_flat rooted rootedPower (occursFlat childFlat)
              (ofFlat childFlat)
          · exact faithful_flatLexicographic rooted rootedPower (fun copies =>
              faithful true (childFaithful.resolve_left (Nat.ne_of_gt copies)))
      | interleaved =>
          rw [Description.faithful] at described
          refine faithful_flatInterleaved rooted rootedPower (fun none => ?_) (fun copies => ?_)
          · rwa [if_pos none] at described
          · rw [if_neg (Nat.ne_of_gt copies)] at described
            exact faithful checked described

/-- If the description of a basis is faithful, so is the basis. -/
theorem Numbered.faithful (numbered : Numbered grid least basis numbering)
    (covered : grid.Covered) (vertices : 0 < grid.size 2) (room : numbering.dofs < Index.limit)
    (described : basis.description.faithful checked = true) :
    basis.Faithful numbering (grid.size 0) checked := by
  induction numbered generalizing checked with
  | lagrange created =>
      have numbered : Numbered grid least _ _ := .lagrange created
      refine Basis.faithful_of_cons ?_ (fun _ _ _ => Basis.faithfulAt_of_eq_zero rfl)
      refine ⟨nofun, fun size sized positive => ⟨0, [], ?_⟩⟩
      exact (numbered.occursFlat covered rfl [0]).mpr
        ⟨0, (numbered.rooted vertices room).dofsPos, rfl⟩
  | @power child numbering merging exponent _ childNumbered ih =>
      have roomChild := Nat.lt_of_le_of_lt Numbering.dofs_le_power room
      have rooted := childNumbered.rooted vertices roomChild
      exact PowerBasis.faithful rooted (PowerBasis.rooted rooted room)
        (childNumbered.exists_occurs covered vertices roomChild)
        (childNumbered.occursFlat covered)
        (fun flat _ _ _ => (childNumbered.answers vertices roomChild).eq_zero_of_flat
          (childNumbered.maxIndexLength_of_isFlat flat))
        (fun _ => ih roomChild) described
  | @composite blocked members basis numbering created membersNumbered ih =>
      cases CompositeBasis.create_eq_ok created
      cases blocked with
      | true =>
          obtain ⟨has, described⟩ :
              Description.anyHasDofs (members.toList.map Basis.description) = true ∧
              Description.allFaithful false (members.toList.map Basis.description) = true := by
            simpa [CompositeBasis.toBasis, Description.faithful] using described
          refine CompositeBasis.faithful_blocked ?_ (fun member inMembers => ?_)
          · obtain ⟨_, inDescriptions, has⟩ := Description.anyHasDofs_iff.mp has
            obtain ⟨member, inMembers, rfl⟩ := List.mem_map.mp inDescriptions
            exact ⟨member, inMembers, (membersNumbered member inMembers).exists_occurs covered
              vertices (Members.dofs_lt room inMembers) has⟩
          · exact ih member inMembers (Members.dofs_lt room inMembers)
              (Description.allFaithful_iff.mp described _ (List.mem_map_of_mem inMembers))
      | false =>
          have rooted := members_rooted membersNumbered vertices room
          refine CompositeBasis.faithful_flat rooted (CompositeBasis.sum_roots_lt rooted room)
            (fun member inMembers => ih member inMembers (Members.dofs_lt room inMembers) ?_)
          exact Description.allFaithful_iff.mp
            (by simpa [CompositeBasis.toBasis, Description.faithful] using described)
            _ (List.mem_map_of_mem inMembers)
  | tagged _ _ ih =>
      intro stem inRange
      obtain ⟨noOverflow, continued⟩ := ih room described stem inRange
      exact ⟨noOverflow, continued⟩

end DofNumbering
