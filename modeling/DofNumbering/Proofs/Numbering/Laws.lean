import DofNumbering.Proofs.Numbering

namespace DofNumbering.Numbering

/-! Numberings that cover their trees.

On every element the indices are different whole indices of the tree, and over
all elements every whole index occurs.
-/

/-- The numbering gives the index to a local degree of freedom of an element. -/
def Occurs (numbering : Numbering) (numElements : Nat) (index : MultiIndex) : Prop :=
  ∃ element < numElements, ∃ j < numbering.size, numbering.index element j = index

/-- On every element the indices are whole indices of the tree, and every whole index is
the one of a local degree of freedom. -/
structure Covers (numbering : Numbering) (numElements : Nat) : Prop where
  count : numbering.tree.count = numbering.root
  total : numbering.tree.total = numbering.dofs
  places : numbering.places = numbering.size
  branching : 0 < numbering.tree.count
  whole : ∀ element < numElements, ∀ j < numbering.size,
    numbering.tree.Whole (numbering.index element j)
  onto : ∀ index, numbering.tree.Whole index →
    ∃ element < numElements, ∃ j < numbering.size, numbering.index element j = index

/-- No element has an index twice. -/
structure Lawful (numbering : Numbering) (numElements : Nat) : Prop
    extends numbering.Covers numElements where
  injective : ∀ element < numElements, ∀ j < numbering.size, ∀ k < numbering.size,
    numbering.index element j = numbering.index element k → j = k

variable {blocked : Bool} {parts : List Numbering} {numbering child : Numbering}
  {count exponent numElements element : Nat} {merging : Merging}

theorem Covers.occurs_iff (covers : numbering.Covers numElements) {index : MultiIndex} :
    numbering.Occurs numElements index ↔ numbering.tree.Whole index := by
  constructor
  · rintro ⟨element, inGrid, j, below, rfl⟩
    exact covers.whole element inGrid j below
  · exact covers.onto index

theorem Lawful.indices_nodup (lawful : numbering.Lawful numElements)
    (below : element < numElements) :
    ((List.range numbering.size).map (numbering.index element)).Nodup := by
  refine List.nodup_range.map_on (fun j inRange k inRange' equal => ?_)
  exact lawful.injective element below j (List.mem_range.mp inRange) k
    (List.mem_range.mp inRange') equal

/-- No element has more degrees of freedom than there are. -/
theorem Lawful.size_le_dofs (lawful : numbering.Lawful numElements) (nonempty : 0 < numElements) :
    numbering.size ≤ numbering.dofs := by
  have ranked : ∀ j < numbering.size, ∃ rank,
      numbering.tree.rank? (numbering.index 0 j) = some rank :=
    fun j below => IndexTree.exists_rank?_iff_whole.mpr (lawful.whole 0 nonempty j below)
  choose! rank rankEq using ranked
  rw [← lawful.total, ← Finset.card_range numbering.size, ← Finset.card_range numbering.tree.total]
  refine Finset.card_le_card_of_injOn rank (fun j below => ?_) (fun j below k below' equal => ?_)
  · have ranked := rankEq j (Finset.mem_range.mp (Finset.mem_coe.mp below))
    exact Finset.mem_coe.mpr (Finset.mem_range.mpr (IndexTree.rank?_lt_total ranked))
  · rw [Finset.mem_coe, Finset.mem_range] at below below'
    have ranked := rankEq j below
    rw [equal] at ranked
    exact lawful.injective 0 nonempty j below k below'
      (IndexTree.rank?_injective ranked (rankEq k below'))

theorem Lawful.places_le_dofs (lawful : numbering.Lawful numElements) (nonempty : 0 < numElements) :
    numbering.places ≤ numbering.dofs := lawful.places ▸ lawful.size_le_dofs nonempty

section Joined

theorem tree_joined_root (each : ∀ part ∈ parts, part.Covers numElements) :
    (parts.map tree).map IndexTree.count = parts.map root := by
  rw [List.map_map]
  exact List.map_congr_left (fun part inParts => (each part inParts).count)

theorem branching_of_covers (each : ∀ part ∈ parts, part.Covers numElements) :
    ∀ sub ∈ parts.map tree, 0 < sub.count := by
  intro sub inTrees
  obtain ⟨part, inParts, rfl⟩ := List.mem_map.mp inTrees
  exact (each part inParts).branching

theorem branching_of_lawful (each : ∀ part ∈ parts, part.Lawful numElements) :
    ∀ sub ∈ parts.map tree, 0 < sub.count :=
  branching_of_covers (fun part inParts => (each part inParts).toCovers)

/-- A position of the joined numbering is one of a part. -/
theorem exists_position {j : Nat} (below : j < (joined blocked parts).size) :
    ∃ i part k, parts[i]? = some part ∧ k < part.size ∧
      j = partOffset (parts.map size) i + k ∧ ∀ element, (joined blocked parts).index element j =
        .joined blocked (partOffset (parts.map root) i) i (part.index element k) := by
  obtain ⟨i, _, k, found, within, rfl⟩ := exists_part below
  obtain ⟨part, foundPart, rfl⟩ : ∃ part, parts[i]? = some part ∧ part.size = _ := by
    simpa using found
  exact ⟨i, part, k, foundPart, within, rfl, fun _ => index_joined foundPart within⟩

theorem getElem?_map_tree {i : Nat} {part : Numbering} (found : parts[i]? = some part) :
    (parts.map tree)[i]? = some part.tree := by
  rw [List.getElem?_map, found]
  rfl

theorem covers_joined (nonempty : parts ≠ []) (each : ∀ part ∈ parts, part.Covers numElements) :
    (joined blocked parts).Covers numElements := by
  have branching := branching_of_covers each
  have roots := tree_joined_root each
  have treesNonempty : parts.map tree ≠ [] := by simpa using nonempty
  have wholeIff := fun index => @IndexTree.whole_joined_iff _ blocked index treesNonempty branching
  rw [roots] at wholeIff
  constructor
  · cases blocked with
    | true => exact (List.length_map ..)
    | false => exact congrArg List.sum roots
  · refine (IndexTree.total_joined treesNonempty branching).trans ?_
    rw [List.map_map]
    exact congrArg List.sum (List.map_congr_left (fun part inParts => (each part inParts).total))
  · exact congrArg List.sum (List.map_congr_left (fun part inParts => (each part inParts).places))
  · exact IndexTree.count_joined_pos treesNonempty branching
  · intro element inGrid j below
    obtain ⟨i, part, k, found, within, -, equal⟩ := exists_position below
    have whole := (each part (List.mem_of_getElem? found)).whole element inGrid k within
    rw [equal]
    exact (wholeIff _).mpr ⟨i, part.tree, getElem?_map_tree found, _, whole, rfl⟩
  · intro index whole
    obtain ⟨i, sub, found, inner, wholeInner, rfl⟩ := (wholeIff index).mp whole
    obtain ⟨part, foundPart, rfl⟩ : ∃ part, parts[i]? = some part ∧ part.tree = sub := by
      simpa using found
    obtain ⟨element, inGrid, k, within, rfl⟩ :=
      (each part (List.mem_of_getElem? foundPart)).onto inner wholeInner
    refine ⟨element, inGrid, partOffset (parts.map size) i + k, ?_, index_joined foundPart within⟩
    exact (tiling_consecutive (parts.map size)).lt_sum (by simp [foundPart]) within

theorem lawful_joined (nonempty : parts ≠ []) (each : ∀ part ∈ parts, part.Lawful numElements) :
    (joined blocked parts).Lawful numElements := by
  have covers := fun part inParts => (each part inParts).toCovers
  refine ⟨covers_joined nonempty covers, ?_⟩
  intro element inGrid j below j' below' same
  obtain ⟨i, part, k, found, within, rfl, equal⟩ := exists_position below
  obtain ⟨i', part', k', found', within', rfl, equal'⟩ := exists_position below'
  rw [equal, equal', ← tree_joined_root covers] at same
  have lawful := each part (List.mem_of_getElem? found)
  have lawful' := each part' (List.mem_of_getElem? found')
  obtain ⟨rfl, sameInner⟩ := IndexTree.joined_injective (branching_of_lawful each)
    (getElem?_map_tree found) (lawful.whole element inGrid k within)
    (getElem?_map_tree found') (lawful'.whole element inGrid k' within') same
  obtain rfl := Option.some.inj (found.symm.trans found')
  rw [lawful.injective element inGrid k within k' within' sameInner]

end Joined

section Interleaved

theorem covers_interleaved (positive : 0 < count) (covers : child.Covers numElements) :
    (interleaved blocked count child).Covers numElements := by
  have wholeIff := fun index =>
    @IndexTree.whole_interleaved_iff _ blocked count index positive covers.branching
  constructor
  · cases blocked with
    | true => exact (IndexTree.count_interleaved_blocked covers.branching).trans covers.count
    | false => exact congrArg (count * ·) covers.count
  · exact (IndexTree.total_interleaved positive covers.branching).trans
      (congrArg (count * ·) covers.total)
  · exact congrArg (count * ·) covers.places
  · exact IndexTree.count_interleaved_pos positive covers.branching
  · intro element inGrid j below
    have whole := covers.whole element inGrid (j / count) (Nat.div_lt_of_lt_mul below)
    exact (wholeIff _).mpr ⟨_, Nat.mod_lt j positive, _, whole, rfl⟩
  · intro index whole
    obtain ⟨part, inCount, inner, wholeInner, rfl⟩ := (wholeIff index).mp whole
    obtain ⟨element, inGrid, k, within, rfl⟩ := covers.onto inner wholeInner
    refine ⟨element, inGrid, k * count + part, ?_, index_interleaved inCount⟩
    have slot := (tiling_interleaved count child.size).lt_sum
      (by rw [List.getElem?_replicate, if_pos inCount]) within
    rwa [List.sum_replicate_nat] at slot

theorem lawful_interleaved (positive : 0 < count) (lawful : child.Lawful numElements) :
    (interleaved blocked count child).Lawful numElements := by
  refine ⟨covers_interleaved positive lawful.toCovers, ?_⟩
  intro element inGrid j below k below' same
  have turn : ∀ j, j % count < count := fun j => Nat.mod_lt j positive
  have inCopy : j / count < child.size := Nat.div_lt_of_lt_mul below
  have inCopy' : k / count < child.size := Nat.div_lt_of_lt_mul below'
  obtain ⟨sameTurn, sameInner⟩ := IndexTree.interleaved_injective lawful.branching
    (turn j) (lawful.whole element inGrid _ inCopy)
    (turn k) (lawful.whole element inGrid _ inCopy') same
  have sameCopy := lawful.injective element inGrid _ inCopy _ inCopy' sameInner
  rw [← Nat.div_add_mod j count, sameTurn, sameCopy, Nat.div_add_mod]

end Interleaved

section Power

/-- With a positive exponent a power is just its copies. -/
theorem power_eq_copies (positive : 0 < exponent) :
    child.power merging exponent = copies merging exponent child := by
  have most : max 1 exponent = exponent := Nat.max_eq_right positive
  obtain ⟨blocked, layout⟩ := merging
  cases layout <;> simp [power, copies, joined, interleaved, most]

theorem covers_power (positive : 0 < exponent) (covers : child.Covers numElements) :
    (child.power merging exponent).Covers numElements := by
  rw [power_eq_copies positive]
  obtain ⟨blocked, layout⟩ := merging
  cases layout with
  | lexicographic =>
      exact covers_joined (by simp; omega)
        (fun part inParts => List.eq_of_mem_replicate inParts ▸ covers)
  | interleaved => exact covers_interleaved positive covers

theorem lawful_power (positive : 0 < exponent) (lawful : child.Lawful numElements) :
    (child.power merging exponent).Lawful numElements := by
  rw [power_eq_copies positive]
  obtain ⟨blocked, layout⟩ := merging
  cases layout with
  | lexicographic =>
      exact lawful_joined (by simp; omega)
        (fun part inParts => List.eq_of_mem_replicate inParts ▸ lawful)
  | interleaved => exact lawful_interleaved positive lawful

end Power

end DofNumbering.Numbering
