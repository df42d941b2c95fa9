import DofNumbering.Proofs.IndexTree.Sizes
import DofNumbering.Proofs.Sizes.Continuation

namespace DofNumbering

/-! Stems that a basis misreads.

A node finds its size after a stem by the sizes of its parts after stems that it makes of
this one.  Two nodes do not look whether an entry is in range: a blocked interleaved power
at the last entry of an index of its child, and a flat lexicographic power at the first
entry.  A flat power without copies has no entries in range at all.  If no node on the way
reads such an entry, the basis only counts something after entries in range.
-/

namespace MultiIndex

variable {size : List Nat → Except Fault Nat} {entry : Nat} {front stem rest : List Nat}

/-- Some entry is not in range, although the ones before are and can be continued. -/
def Exceeds (size : List Nat → Except Fault Nat) (stem : List Nat) : Prop :=
  ∃ start entry bound, start ++ [entry] <+: stem ∧ WithinSizes size start ∧
    size start = .ok bound ∧ 0 < bound ∧ bound ≤ entry

theorem Exceeds.not_withinSizes (exceeds : Exceeds size stem) : ¬ WithinSizes size stem := by
  obtain ⟨start, entry, bound, isPrefix, -, sized, -, outside⟩ := exceeds
  intro within
  obtain ⟨bound', sized', inRange⟩ := within start entry isPrefix
  obtain rfl := Except.ok.inj (sized.symm.trans sized')
  omega

theorem withinSizes_singleton_iff :
    WithinSizes size [entry] ↔ ∃ bound, size [] = .ok bound ∧ entry < bound :=
  withinSizes_cons_iff.trans (and_iff_left withinSizes_nil)

theorem withinSizes_append_iff : WithinSizes size (front ++ rest) ↔
    WithinSizes size front ∧ WithinSizes (fun stem => size (front ++ stem)) rest := by
  induction front generalizing size with
  | nil => exact (and_iff_right withinSizes_nil).symm
  | cons first front ih =>
      rw [List.cons_append, withinSizes_cons_iff, withinSizes_cons_iff, ih, and_assoc]
      rfl

/-- Behind entries in range. -/
theorem Exceeds.of_append (exceeds : Exceeds size (front ++ rest))
    (within : WithinSizes size front) : Exceeds (fun stem => size (front ++ stem)) rest := by
  obtain ⟨start, entry, bound, isPrefix, inRange, sized, positive, outside⟩ := exceeds
  have notInFront : ¬ start ++ [entry] <+: front := by
    intro inFront
    obtain ⟨bound', sized', below⟩ := within start entry inFront
    obtain rfl := Except.ok.inj (sized.symm.trans sized')
    omega
  obtain ⟨others, rfl⟩ : front <+: start := by
    have inStem := List.prefix_append front rest
    have reached := (List.prefix_or_prefix_of_prefix inStem isPrefix).resolve_right notInFront
    rcases List.prefix_concat_iff.mp reached with rfl | inStart
    · exact absurd (List.prefix_refl _) notInFront
    · exact inStart
  refine ⟨others, entry, bound, ?_, (withinSizes_append_iff.mp inRange).2, sized, positive, outside⟩
  rw [List.append_assoc] at isPrefix
  exact (List.prefix_append_right_inj front).mp isPrefix

end MultiIndex

/-- The part is the child of a power or a member of a composite. -/
inductive Basis.HasPart : Basis → Basis → Prop where
  | power {child : Basis} (merging : Merging) (exponent : Nat) :
      HasPart (PowerBasis.toBasis ⟨merging, exponent, child⟩) child
  | composite {members : Members} {member : Basis} (blocked : Bool)
      (inMembers : member ∈ members.toList) :
      HasPart (CompositeBasis.toBasis ⟨blocked, members⟩) member

/-- Behind the first entry, the node counts what the part counts behind other entries, and they
are in range together. -/
structure Basis.Delegates (basis : Basis) (first : Nat) (part : Basis) (front : List Nat) (bound : Nat) :
    Prop where
  hasPart : basis.HasPart part
  sizeNil : basis.size [] = .ok bound
  positive : 0 < bound
  inRange_iff : first < bound ↔ MultiIndex.WithinSizes part.size front
  size_cons : ∀ rest, basis.size (first :: rest) = part.size (front ++ rest)

/-- On the way to the size after the stem, some node reads an entry that is out of range;
powers have at least so many copies. -/
inductive Basis.Misreads (least : Nat) : Basis → List Nat → Prop where
  /-- The last entry is taken for that of an index of the child. -/
  | overrun {exponent last bound : Nat} {child : Basis} {stem : List Nat}
      (within : MultiIndex.WithinSizes child.size stem) (sized : child.size stem = .ok bound)
      (positive : 0 < bound) (outside : bound ≤ last) :
      Misreads least (PowerBasis.toBasis ⟨⟨true, .interleaved⟩, exponent, child⟩) (stem ++ [last])
  /-- The first entry is behind the last copy. -/
  | wrapped {exponent first bound : Nat} {child : Basis} {rest : List Nat}
      (sizeNil : (PowerBasis.toBasis ⟨⟨false, .lexicographic⟩, exponent, child⟩).size [] = .ok bound)
      (positive : 0 < bound) (outside : bound ≤ first) :
      Misreads least (PowerBasis.toBasis ⟨⟨false, .lexicographic⟩, exponent, child⟩) (first :: rest)
  /-- There is no copy that the first entry could belong to. -/
  | vacant {layout : Layout} {first : Nat} {child : Basis} {rest : List Nat} (none : least = 0) :
      Misreads least (PowerBasis.toBasis ⟨⟨false, layout⟩, 0, child⟩) (first :: rest)
  | delegated {first bound : Nat} {basis part : Basis} {front rest : List Nat}
      (delegates : basis.Delegates first part front bound)
      (misreads : Misreads least part (front ++ rest)) : Misreads least basis (first :: rest)
  | interleaved {exponent : Nat} {child : Basis} {start stem : List Nat} (isPrefix : start <+: stem)
      (misreads : Misreads least child start) :
      Misreads least (PowerBasis.toBasis ⟨⟨true, .interleaved⟩, exponent, child⟩) stem
  | tagged {basis : Basis} {stem : List Nat} (tag : Nat) (misreads : Misreads least basis stem) :
      Misreads least (basis.withTag tag) stem

/-- Nothing is counted after the stem unless its entries are in range. -/
structure Basis.CountsWithin (basis : Basis) (stem : List Nat) : Prop where
  noOverflow : basis.size stem ≠ .error .arithmetic
  within : ∀ size, basis.size stem = .ok size → 0 < size → MultiIndex.WithinSizes basis.size stem

variable {grid : GridView} {basis child part : Basis} {numbering : Numbering}
  {least exponent bound first : Nat} {merging : Merging} {blocked : Bool} {members : Members}
  {stem front rest : List Nat}

namespace Basis

theorem countsWithin_of_zero (none : basis.size stem = .ok 0) : basis.CountsWithin stem :=
  ⟨none ▸ nofun, fun _ sized positive =>
    absurd (Except.ok.inj (none.symm.trans sized)) (Nat.ne_of_lt positive)⟩

theorem countsWithin_of_error (fault : Fault) (other : fault ≠ .arithmetic)
    (fails : basis.size stem = .error fault) : basis.CountsWithin stem :=
  ⟨fun overflow => other (Except.error.inj (fails.symm.trans overflow)),
    fun _ sized => absurd (fails.symm.trans sized) nofun⟩

theorem Rooted.countsWithin_nil (rooted : basis.Rooted numbering) : basis.CountsWithin [] :=
  ⟨rooted.sizeNil ▸ nofun, fun _ _ _ => MultiIndex.withinSizes_nil⟩

namespace Delegates

variable (delegates : basis.Delegates first part front bound)

include delegates

theorem withinSizes_iff : MultiIndex.WithinSizes basis.size (first :: rest) ↔
    MultiIndex.WithinSizes part.size (front ++ rest) := by
  rw [MultiIndex.withinSizes_cons_iff, MultiIndex.withinSizes_append_iff, ← delegates.inRange_iff]
  simp only [delegates.sizeNil, delegates.size_cons, Except.ok.injEq, exists_eq_left']

theorem countsWithin (counts : part.CountsWithin (front ++ rest)) :
    basis.CountsWithin (first :: rest) := by
  obtain ⟨noOverflow, within⟩ := counts
  rw [← delegates.size_cons] at noOverflow within
  exact ⟨noOverflow, fun size sized positive =>
    delegates.withinSizes_iff.mpr (within size sized positive)⟩

theorem exceeds (exceeds : MultiIndex.Exceeds part.size (front ++ rest)) :
    MultiIndex.Exceeds basis.size (first :: rest) := by
  by_cases inRange : first < bound
  · obtain ⟨start, entry, bound, isPrefix, within, sized, positive, outside⟩ :=
      exceeds.of_append (delegates.inRange_iff.mp inRange)
    refine ⟨first :: start, entry, bound, List.cons_prefix_cons.mpr ⟨rfl, isPrefix⟩, ?_,
      (delegates.size_cons start).trans sized, positive, outside⟩
    exact delegates.withinSizes_iff.mpr
      (MultiIndex.withinSizes_append_iff.mpr ⟨delegates.inRange_iff.mp inRange, within⟩)
  · exact ⟨[], first, bound, List.prefix_append [first] rest, MultiIndex.withinSizes_nil,
      delegates.sizeNil, delegates.positive, Nat.le_of_not_lt inRange⟩

end Delegates

end Basis

section Powers

theorem PowerBasis.blockedInterleavedSize_of_pos {size : Nat} (sized : child.size stem = .ok size)
    (positive : 0 < size) :
    blockedInterleavedSize ⟨merging, exponent, child⟩ stem = .ok size := by
  rw [blockedInterleavedSize, sized, ok_bind, if_pos (.inl positive)]

theorem PowerBasis.withinSizes_blockedInterleaved (within : MultiIndex.WithinSizes child.size stem) :
    MultiIndex.WithinSizes (blockedInterleavedSize ⟨merging, exponent, child⟩) stem := by
  intro start entry isPrefix
  obtain ⟨bound, sized, inRange⟩ := within start entry isPrefix
  exact ⟨bound, blockedInterleavedSize_of_pos sized (Nat.zero_lt_of_lt inRange), inRange⟩

/-- After a whole index of the child there is room for the number of the copy. -/
theorem PowerBasis.countsWithin_blockedInterleaved (counts : child.CountsWithin stem)
    (countsInit : child.CountsWithin stem.dropLast)
    (inRange : ∀ start last bound, stem = start ++ [last] → child.size start = .ok bound →
      0 < bound → last < bound) :
    (PowerBasis.toBasis ⟨⟨true, .interleaved⟩, exponent, child⟩).CountsWithin stem := by
  refine ⟨noOverflow_blockedInterleavedSize counts.noOverflow countsInit.noOverflow,
    fun size sized positive => ?_⟩
  rcases of_blockedInterleavedSize sized positive with
    sizedChild | ⟨-, notRoot, -, bound, sizedInit, some⟩
  · exact withinSizes_blockedInterleaved (counts.within size sizedChild positive)
  · have within := countsInit.within bound sizedInit some
    have below := inRange _ _ bound (List.dropLast_append_getLast notRoot).symm sizedInit some
    rw [← List.dropLast_append_getLast notRoot]
    exact withinSizes_blockedInterleaved (within.push sizedInit below)

theorem PowerBasis.countsWithin_or_misreads_blockedInterleaved
    (each : ∀ stem, child.CountsWithin stem ∨ child.Misreads least stem) (stem : List Nat) :
    (PowerBasis.toBasis ⟨⟨true, .interleaved⟩, exponent, child⟩).CountsWithin stem ∨
      (PowerBasis.toBasis ⟨⟨true, .interleaved⟩, exponent, child⟩).Misreads least stem := by
  rcases each stem with counts | misreads
  · rcases each stem.dropLast with countsInit | misreads
    · by_cases overrun : ∃ start last bound, stem = start ++ [last] ∧
          child.size start = .ok bound ∧ 0 < bound ∧ bound ≤ last
      · obtain ⟨start, last, bound, rfl, sized, positive, outside⟩ := overrun
        rw [List.dropLast_concat] at countsInit
        exact .inr (.overrun (countsInit.within bound sized positive) sized positive outside)
      · refine .inl (countsWithin_blockedInterleaved counts countsInit ?_)
        intro start last bound equal sized positive
        by_contra outside
        exact overrun ⟨start, last, bound, equal, sized, positive, Nat.le_of_not_lt outside⟩
    · exact .inr (.interleaved (List.dropLast_prefix stem) misreads)
  · exact .inr (.interleaved (List.prefix_refl stem) misreads)

theorem PowerBasis.delegates_blocked (inRange : first < exponent) :
    (PowerBasis.toBasis ⟨⟨true, .lexicographic⟩, exponent, child⟩).Delegates first child []
      exponent where
  hasPart := .power _ _
  sizeNil := rfl
  positive := Nat.zero_lt_of_lt inRange
  inRange_iff := iff_of_true inRange MultiIndex.withinSizes_nil
  size_cons _ := if_pos inRange

variable {layout : Layout}

/-- A flat power leaves the stem to its child, with another first entry. -/
theorem PowerBasis.delegates_flat (childFirst : Nat → Nat → Except Fault Nat) (inner : Nat)
    (rooted : child.Rooted numbering)
    (rootedPower : (PowerBasis.toBasis ⟨⟨false, layout⟩, exponent, child⟩).Rooted
      (numbering.power ⟨false, layout⟩ exponent))
    (sizes : ∀ stem, PowerBasis.size ⟨⟨false, layout⟩, exponent, child⟩ stem =
      flatSize ⟨⟨false, layout⟩, exponent, child⟩ childFirst stem)
    (copies : 0 < exponent) (positive : 0 < numbering.root)
    (found : childFirst first numbering.root = .ok inner)
    (inRange : first < exponent * numbering.root ↔ inner < numbering.root) :
    (PowerBasis.toBasis ⟨⟨false, layout⟩, exponent, child⟩).Delegates first child [inner]
      (exponent * numbering.root) where
  hasPart := .power _ _
  sizeNil := Numbering.root_power_flat ▸ rootedPower.sizeNil
  positive := Nat.mul_pos copies positive
  inRange_iff := by
    rw [MultiIndex.withinSizes_singleton_iff, rooted.sizeNil]
    simpa using inRange
  size_cons rest := (sizes _).trans (flatSize_cons rooted positive found rest)

theorem PowerBasis.countsWithin_or_misreads_flat (enough : least ≤ exponent)
    (rooted : child.Rooted numbering)
    (rootedPower : (PowerBasis.toBasis ⟨⟨false, layout⟩, exponent, child⟩).Rooted
      (numbering.power ⟨false, layout⟩ exponent))
    (each : ∀ stem, child.CountsWithin stem ∨ child.Misreads least stem) (first : Nat)
    (rest : List Nat) :
    (PowerBasis.toBasis ⟨⟨false, layout⟩, exponent, child⟩).CountsWithin (first :: rest) ∨
      (PowerBasis.toBasis ⟨⟨false, layout⟩, exponent, child⟩).Misreads least (first :: rest) := by
  rcases Nat.eq_zero_or_pos exponent with rfl | copies
  · exact .inr (.vacant (Nat.eq_zero_of_le_zero enough))
  rcases Nat.eq_zero_or_pos numbering.root with empty | positive
  · refine .inl (Basis.countsWithin_of_zero ?_)
    have none : child.size [] = .ok 0 := empty ▸ rooted.sizeNil
    cases layout with
    | lexicographic => exact @flatSize_cons_of_empty _ _ _ Index.mod _ _ none
    | interleaved => exact @flatSize_cons_of_empty _ _ _ (fun first _ => Index.div first exponent) _ _ none
  cases layout with
  | lexicographic =>
      by_cases inRange : first < exponent * numbering.root
      · have delegates := delegates_flat Index.mod (first % numbering.root) rooted
          rootedPower (fun _ => rfl) copies positive (if_neg (Nat.ne_of_gt positive))
          (iff_of_true inRange (Nat.mod_lt first positive))
        exact (each (first % numbering.root :: rest)).imp delegates.countsWithin
          (.delegated delegates)
      · exact .inr (.wrapped (Numbering.root_power_flat ▸ rootedPower.sizeNil)
          (Nat.mul_pos copies positive) (Nat.le_of_not_lt inRange))
  | interleaved =>
      have delegates := delegates_flat (fun first _ => Index.div first exponent)
        (first / exponent) rooted rootedPower (fun _ => rfl) copies positive
        (if_neg (Nat.ne_of_gt copies)) (by rw [Nat.div_lt_iff_lt_mul copies, Nat.mul_comm])
      exact (each (first / exponent :: rest)).imp delegates.countsWithin (.delegated delegates)

theorem PowerBasis.countsWithin_or_misreads (enough : least ≤ exponent)
    (rooted : child.Rooted numbering)
    (rootedPower : (PowerBasis.toBasis ⟨merging, exponent, child⟩).Rooted
      (numbering.power merging exponent))
    (each : ∀ stem, child.CountsWithin stem ∨ child.Misreads least stem) (stem : List Nat) :
    (PowerBasis.toBasis ⟨merging, exponent, child⟩).CountsWithin stem ∨
      (PowerBasis.toBasis ⟨merging, exponent, child⟩).Misreads least stem := by
  obtain ⟨blocked, layout⟩ := merging
  cases stem with
  | nil => exact .inl rootedPower.countsWithin_nil
  | cons first rest =>
      cases blocked with
      | true =>
          cases layout with
          | lexicographic =>
              by_cases inRange : first < exponent
              · have delegates := @delegates_blocked child exponent first inRange
                exact (each rest).imp delegates.countsWithin (.delegated delegates)
              · exact .inl (Basis.countsWithin_of_error (.powerChild first exponent) nofun
                  (if_neg inRange))
          | interleaved => exact countsWithin_or_misreads_blockedInterleaved each (first :: rest)
      | false => exact countsWithin_or_misreads_flat enough rooted rootedPower each first rest

end Powers

section Composites

variable {numbering : Basis → Numbering}

theorem CompositeBasis.delegates_blocked (inRange : first < members.count) :
    (CompositeBasis.toBasis ⟨true, members⟩).Delegates first (members.at first) []
      members.count where
  hasPart := .composite true (members.at_mem inRange)
  sizeNil := rfl
  positive := Nat.zero_lt_of_lt inRange
  inRange_iff := iff_of_true inRange MultiIndex.withinSizes_nil
  size_cons := size_blocked_cons inRange

theorem CompositeBasis.countsWithin_or_misreads
    (rooted : ∀ member ∈ members.toList, member.Rooted (numbering member))
    (rootedComposite : (CompositeBasis.toBasis ⟨blocked, members⟩).Rooted
      (.joined blocked (members.toList.map numbering)))
    (room : ((members.toList.map numbering).map Numbering.root).sum < Index.limit)
    (each : ∀ member ∈ members.toList, ∀ stem,
      member.CountsWithin stem ∨ member.Misreads least stem) (stem : List Nat) :
    (CompositeBasis.toBasis ⟨blocked, members⟩).CountsWithin stem ∨
      (CompositeBasis.toBasis ⟨blocked, members⟩).Misreads least stem := by
  cases stem with
  | nil => exact .inl rootedComposite.countsWithin_nil
  | cons first rest =>
      cases blocked with
      | true =>
          by_cases inRange : first < members.count
          · have delegates := delegates_blocked inRange
            exact (each _ (members.at_mem inRange) rest).imp delegates.countsWithin
              (.delegated delegates)
          · exact .inl (Basis.countsWithin_of_error (.compositeChild first) nofun (if_neg inRange))
      | false =>
          rcases flatSize_cases rooted first 0 (by omega) (Nat.zero_le first) with
            ⟨-, none⟩ | ⟨i, member, found, inner, below, equal, passes⟩
          · exact .inl (Basis.countsWithin_of_zero (none rest))
          · have inMembers := List.mem_of_getElem? found
            have inRange : first < ((members.toList.map numbering).map Numbering.root).sum := by
              rw [equal, Nat.zero_add]
              exact (tiling_consecutive _).lt_sum (by simp [found]) below
            have delegates : (CompositeBasis.toBasis ⟨false, members⟩).Delegates first member
                [inner] _ := {
              hasPart := .composite false inMembers
              sizeNil := rootedComposite.sizeNil
              positive := Nat.zero_lt_of_lt inRange
              inRange_iff := iff_of_true inRange (MultiIndex.withinSizes_singleton_iff.mpr
                ⟨_, (rooted member inMembers).sizeNil, below⟩)
              size_cons := passes }
            exact (each member inMembers (inner :: rest)).imp delegates.countsWithin
              (.delegated delegates)

end Composites

/-- Where the basis does not misread the stem, it only counts something after entries in range. -/
theorem Numbered.countsWithin_or_misreads (numbered : Numbered grid least basis numbering)
    (vertices : 0 < grid.size 2) (room : numbering.dofs < Index.limit) (stem : List Nat) :
    basis.CountsWithin stem ∨ basis.Misreads least stem := by
  induction numbered generalizing stem with
  | @lagrange order basis created =>
      cases stem with
      | nil => exact .inl ⟨nofun, fun _ _ _ => MultiIndex.withinSizes_nil⟩
      | cons first rest => exact .inl (Basis.countsWithin_of_zero rfl)
  | @power child numbering merging exponent enough childNumbered ih =>
      have roomChild := Nat.lt_of_le_of_lt Numbering.dofs_le_power room
      have rooted := childNumbered.rooted vertices roomChild
      exact PowerBasis.countsWithin_or_misreads enough rooted (PowerBasis.rooted rooted room)
        (ih roomChild) stem
  | @composite blocked members basis numbering created membersNumbered ih =>
      cases CompositeBasis.create_eq_ok created
      have rooted := members_rooted membersNumbered vertices room
      exact CompositeBasis.countsWithin_or_misreads rooted (CompositeBasis.rooted rooted room)
        (CompositeBasis.sum_roots_lt rooted room)
        (fun member inMembers => ih member inMembers (Members.dofs_lt room inMembers)) stem
  | tagged tag _ ih =>
      exact (ih room stem).imp (fun counts => ⟨counts.noOverflow, counts.within⟩) (.tagged tag)

/-- If all powers have copies, a stem that is misread really has an entry out of range. -/
theorem Basis.Misreads.exceeds (misreads : basis.Misreads least stem) (positive : 0 < least) :
    MultiIndex.Exceeds basis.size stem := by
  induction misreads with
  | overrun within sized some outside =>
      exact ⟨_, _, _, List.prefix_refl _, PowerBasis.withinSizes_blockedInterleaved within,
        PowerBasis.blockedInterleavedSize_of_pos sized some, some, outside⟩
  | @wrapped exponent first bound child rest sizeNil some outside =>
      exact ⟨[], first, bound, List.prefix_append [first] rest, MultiIndex.withinSizes_nil,
        sizeNil, some, outside⟩
  | vacant none => exact absurd none (Nat.ne_of_gt positive)
  | delegated delegates _ ih => exact delegates.exceeds ih
  | interleaved isPrefix _ ih =>
      obtain ⟨start, entry, bound, inStart, within, sized, some, outside⟩ := ih
      exact ⟨start, entry, bound, inStart.trans isPrefix,
        PowerBasis.withinSizes_blockedInterleaved within,
        PowerBasis.blockedInterleavedSize_of_pos sized some, some, outside⟩
  | tagged _ _ ih => exact ih

section Copies

variable (numbered : Numbered grid 1 basis numbering) (covered : grid.Covered)
  (nonempty : 0 < grid.size 0) (room : numbering.dofs < Index.limit)

include numbered covered nonempty room

theorem Numbered.follows : numbering.tree.Follows basis.size :=
  fun stem _ found => (numbered.describes covered nonempty room).sizedBy stem _
    (IndexTree.size?_of_at? found)

/-- If all powers have copies, entries in range lead to degrees of freedom. -/
theorem Numbered.occursAfter_of_withinSizes {size : Nat}
    (within : MultiIndex.WithinSizes basis.size stem) (sized : basis.size stem = .ok size)
    (positive : 0 < size) : numbering.OccursAfter (grid.size 0) stem := by
  have follows := numbered.follows covered nonempty room
  obtain ⟨sub, found⟩ := (IndexTree.withinSizes_iff follows).mp within
  obtain rfl := Except.ok.inj ((follows stem sub found).symm.trans sized)
  obtain ⟨index, whole, rest, rfl⟩ := (IndexTree.extends_iff_lt_count found).mpr positive
  rw [List.append_assoc] at whole
  exact ⟨0, rest, (numbered.covers covered nonempty).occurs_iff.mpr whole⟩

theorem Numbered.withinSizes_of_occurs {index : MultiIndex}
    (occurs : numbering.Occurs (grid.size 0) index) (isPrefix : stem <+: index) :
    MultiIndex.WithinSizes basis.size stem := by
  have whole := (numbered.covers covered nonempty).occurs_iff.mp occurs
  exact (IndexTree.withinSizes_iff (numbered.follows covered nonempty room)).mpr
    (IndexTree.exists_at?_iff.mpr ⟨index, whole, isPrefix⟩)

end Copies

end DofNumbering
