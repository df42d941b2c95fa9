import DofNumbering.Proofs.Basis.Composite
import DofNumbering.Proofs.Basis.Power
import DofNumbering.Proofs.Descriptor
import DofNumbering.Proofs.Occurrence

namespace DofNumbering

/-! The containers of powers and composites.

Flat containers stay flat in a flat layout; where a flat layout meets blocks, the
container is unknown.
-/

/-- The basis has flat indices and a flat container. -/
structure Basis.HasFlatContainer (basis : Basis) (numbering : Numbering)
    (numElements dimension : Nat) : Prop where
  contained : basis.container = .ok (.flatVector dimension)
  sizeNil : basis.size [] = .ok dimension
  sizeCons : ∀ number < dimension, ∀ rest, basis.size (number :: rest) = .ok 0
  length : basis.maxIndexLength = 1
  root : numbering.root = dimension
  occurs : numbering.OccursFlat numElements

/-- The container of the basis is the given one, and it fits the sizes and the indices. -/
structure Basis.HasContainer (basis : Basis) (numbering : Numbering) (numElements dimension : Nat)
    (node : Descriptor) : Prop where
  contained : basis.container = .ok node
  notValue : node ≠ .value
  flat : node.isFlat → basis.HasFlatContainer numbering numElements dimension
  mirrors : node.Mirrors basis.size (numbering.Occurs numElements)
  measures : node.Measures dimension basis.maxIndexLength

variable {basis child : Basis} {numbering : Numbering} {numElements dimension exponent : Nat}
  {node : Descriptor} {merging : Merging} {blocked : Bool}

theorem Basis.HasFlatContainer.hasContainer (room : dimension < Index.limit)
    (flat : basis.HasFlatContainer numbering numElements dimension) :
    basis.HasContainer numbering numElements dimension (.flatVector dimension) where
  contained := flat.contained
  notValue := nofun
  flat _ := flat
  mirrors := Descriptor.mirrors_scalars flat.sizeNil
    (fun number below => flat.sizeCons number below []) flat.occurs.not_nil
    (fun number below => (flat.occurs [number]).mpr ⟨number, flat.root.symm ▸ below, rfl⟩)
  measures := by
    have scalars := @Descriptor.measures_uniform .value (.dynamic dimension) 1 0
      Descriptor.measures_value (by rwa [Nat.mul_one])
    rw [flat.length]
    rwa [Nat.mul_one] at scalars

theorem Basis.hasContainer_of_unknown (contained : basis.container = .ok .unknown) :
    basis.HasContainer numbering numElements dimension .unknown where
  contained
  notValue := Descriptor.noConfusion
  flat isFlat := absurd isFlat Bool.false_ne_true
  mirrors := Descriptor.mirrors_unknown
  measures := Descriptor.measures_unknown

namespace Basis.HasContainer

/-- Only flat vectors are flat. -/
theorem eq_flatVector (has : child.HasContainer numbering numElements dimension node)
    (isFlat : node.isFlat) : node = .flatVector dimension :=
  Except.ok.inj (has.contained.symm.trans (has.flat isFlat).contained)

theorem not_isValue (has : child.HasContainer numbering numElements dimension node) :
    node.isValue = false := by
  cases node with
  | value => exact absurd rfl has.notValue
  | _ => rfl

end Basis.HasContainer

theorem LagrangeBasis.hasFlatContainer {basis : LagrangeBasis} (covered : basis.grid.Covered)
    (counted : dofCount basis.grid basis.finite = .ok basis.dimension) :
    basis.toBasis.HasFlatContainer basis.numbering (basis.grid.size 0) basis.dimension where
  contained := rfl
  sizeNil := rfl
  sizeCons _ _ _ := rfl
  length := rfl
  root := rfl
  occurs := occursFlat covered counted

section Power

theorem PowerBasis.hasContainer_blocked
    (has : child.HasContainer numbering numElements dimension node)
    (room : exponent * dimension < Index.limit) :
    (PowerBasis.toBasis ⟨.blockedLexicographic, exponent, child⟩).HasContainer
      (numbering.power .blockedLexicographic exponent) numElements (exponent * dimension)
      (.uniformArray exponent node) where
  contained := by
    change PowerBasis.container _ = _
    rw [PowerBasis.container, has.contained, ok_bind]
    rfl
  notValue := nofun
  flat isFlat := absurd (has.not_isValue.symm.trans isFlat) Bool.false_ne_true
  mirrors := by
    refine Descriptor.mirrors_uniform rfl Numbering.not_occurs_joined_nil (fun copy below => ?_)
    change copy < exponent at below
    refine has.mirrors.congr (fun stem => if_pos below) (fun index => ?_)
    exact Numbering.occurs_joined_cons_iff (by rw [List.getElem?_replicate, if_pos below])
  measures := by
    have measures := @Descriptor.measures_uniform _ (.static exponent) _ _ has.measures room
    rwa [Nat.add_comm] at measures

/-- Behind every flat index of the child, one more entry is the number of the copy. -/
theorem PowerBasis.hasContainer_blockedInterleaved
    (flat : child.HasFlatContainer numbering numElements dimension)
    (inLimit : exponent < Index.limit) (room : exponent * dimension < Index.limit) :
    (PowerBasis.toBasis ⟨.blockedInterleaved, exponent, child⟩).HasContainer
      (numbering.power .blockedInterleaved exponent) numElements (exponent * dimension)
      (.uniformVector dimension (.flatArray exponent)) where
  contained := by
    change PowerBasis.container _ = _
    rw [PowerBasis.container, flat.contained, ok_bind]
    rfl
  notValue := nofun
  flat isFlat := absurd isFlat Bool.false_ne_true
  mirrors := by
    have sizeNil : blockedInterleavedSize ⟨.blockedInterleaved, exponent, child⟩ [] =
        .ok dimension := by
      rw [blockedInterleavedSize, flat.sizeNil, ok_bind, if_pos (.inr rfl)]
    refine Descriptor.mirrors_uniform sizeNil Numbering.not_occurs_interleaved_nil
      (fun number below => ?_)
    change number < dimension at below
    have occursAt := (flat.occurs [number]).mpr ⟨number, flat.root.symm ▸ below, rfl⟩
    refine Descriptor.mirrors_scalars ?_ (fun copy inCount => ?_) ?_ (fun copy inCount => ?_)
    · change blockedInterleavedSize _ [number] = _
      rw [blockedInterleavedSize, flat.sizeCons number below, ok_bind, if_neg (by simp),
        show [number].dropLast = [] from rfl, flat.sizeNil, ok_bind,
        if_pos (Nat.zero_lt_of_lt below)]
      rfl
    · change blockedInterleavedSize _ [number, copy] = _
      rw [blockedInterleavedSize, flat.sizeCons number below, ok_bind, if_neg (by simp),
        show [number, copy].dropLast = [number] from rfl, flat.sizeCons number below, ok_bind,
        if_neg (Nat.lt_irrefl 0)]
    · intro occurs
      have behind := (@Numbering.occurs_interleaved_append_iff numbering exponent numElements []
        number).mp occurs
      exact flat.occurs.not_nil behind.2
    · exact (@Numbering.occurs_interleaved_append_iff numbering exponent numElements [number]
        copy).mpr ⟨inCount, occursAt⟩
  measures := by
    have copies := @Descriptor.measures_uniform .value (.static exponent) 1 0
      Descriptor.measures_value (by rwa [Nat.mul_one])
    rw [Nat.mul_one] at copies
    have measures := @Descriptor.measures_uniform _ (.dynamic dimension) _ _ copies
      (by rwa [Nat.mul_comm] at room)
    change Descriptor.Measures _ _ (child.maxIndexLength + 1)
    rw [flat.length]
    rwa [Nat.mul_comm] at measures

theorem PowerBasis.flatSize_of_flat (flat : child.HasFlatContainer numbering numElements dimension)
    (room : exponent * dimension < Index.limit) (childFirst : Nat → Nat → Except Fault Nat)
    (firsts : ∀ number < exponent * dimension,
      ∃ first < dimension, childFirst number dimension = .ok first) :
    flatSize ⟨merging, exponent, child⟩ childFirst [] = .ok (exponent * dimension) ∧
      ∀ number < exponent * dimension, ∀ rest,
        flatSize ⟨merging, exponent, child⟩ childFirst (number :: rest) = .ok 0 := by
  constructor
  · rw [flatSize, flat.sizeNil, ok_bind]
    exact if_pos room
  · intro number below rest
    obtain ⟨first, inChild, found⟩ := firsts number below
    rw [flatSize, flat.sizeNil, ok_bind]
    simp only [if_neg (Nat.ne_of_gt (Nat.zero_lt_of_lt inChild)), found, ok_bind]
    exact flat.sizeCons first inChild rest

theorem PowerBasis.size_of_flat (flat : child.HasFlatContainer numbering numElements dimension)
    (layout : Layout) (room : exponent * dimension < Index.limit) :
    size ⟨⟨false, layout⟩, exponent, child⟩ [] = .ok (exponent * dimension) ∧
      ∀ number < exponent * dimension, ∀ rest,
        size ⟨⟨false, layout⟩, exponent, child⟩ (number :: rest) = .ok 0 := by
  cases layout with
  | lexicographic =>
      refine flatSize_of_flat flat room Index.mod (fun number below => ?_)
      have positive : 0 < dimension := Nat.pos_of_mul_pos_left (Nat.zero_lt_of_lt below)
      exact ⟨number % dimension, Nat.mod_lt number positive, if_neg (Nat.ne_of_gt positive)⟩
  | interleaved =>
      refine flatSize_of_flat flat room (fun first _ => Index.div first exponent)
        (fun number below => ?_)
      have positive : 0 < exponent := Nat.pos_of_mul_pos_right (Nat.zero_lt_of_lt below)
      exact ⟨number / exponent, Nat.div_lt_of_lt_mul below, if_neg (Nat.ne_of_gt positive)⟩

theorem PowerBasis.hasFlatContainer (flat : child.HasFlatContainer numbering numElements dimension)
    (layout : Layout) (room : exponent * dimension < Index.limit) :
    (PowerBasis.toBasis ⟨⟨false, layout⟩, exponent, child⟩).HasFlatContainer
      (numbering.power ⟨false, layout⟩ exponent) numElements (exponent * dimension) := by
  have product : Index.mul exponent dimension = .ok (exponent * dimension) := if_pos room
  constructor
  · change PowerBasis.container _ = _
    rw [PowerBasis.container, flat.contained, ok_bind]
    change (Index.mul exponent dimension >>= _) = _
    rw [product, ok_bind]
  · exact (size_of_flat flat layout room).1
  · exact (size_of_flat flat layout room).2
  · exact flat.length
  · cases layout with
    | lexicographic =>
        change ((List.replicate exponent numbering).map Numbering.root).sum = _
        rw [List.map_replicate, List.sum_replicate_nat, flat.root]
    | interleaved => exact congrArg (exponent * ·) flat.root
  · cases layout with
    | lexicographic =>
        exact Numbering.occursFlat_joined
          (fun part inParts => List.eq_of_mem_replicate inParts ▸ flat.occurs)
    | interleaved => exact Numbering.occursFlat_interleaved flat.occurs

theorem PowerBasis.exists_hasContainer
    (has : child.HasContainer numbering numElements dimension node) (merging : Merging)
    (inLimit : exponent < Index.limit) (room : exponent * dimension < Index.limit) :
    ∃ node, (PowerBasis.toBasis ⟨merging, exponent, child⟩).HasContainer
      (numbering.power merging exponent) numElements (exponent * dimension) node := by
  obtain ⟨blocked, layout⟩ := merging
  have unknown (isFlat : node.isFlat = false) (other : (blocked, layout) ≠ (true, .lexicographic)) :
      (PowerBasis.toBasis ⟨⟨blocked, layout⟩, exponent, child⟩).container = .ok .unknown := by
    change PowerBasis.container _ = _
    rw [PowerBasis.container, has.contained, ok_bind]
    cases blocked <;> cases layout <;> simp [isFlat] at other ⊢
  cases isFlat : node.isFlat with
  | true =>
      have flat := has.flat isFlat
      cases blocked with
      | true =>
          cases layout with
          | lexicographic => exact ⟨_, hasContainer_blocked has room⟩
          | interleaved => exact ⟨_, hasContainer_blockedInterleaved flat inLimit room⟩
      | false => exact ⟨_, (hasFlatContainer flat layout room).hasContainer room⟩
  | false =>
      by_cases blockedLexicographic : (blocked, layout) = (true, Layout.lexicographic)
      · cases blockedLexicographic
        exact ⟨_, hasContainer_blocked has room⟩
      · exact ⟨.unknown, Basis.hasContainer_of_unknown (unknown isFlat blockedLexicographic)⟩

end Power

section Composite

variable {members : Members} {numbers : Basis → Numbering} {dimensions : Basis → Nat}
  {containers : Basis → Descriptor}

theorem CompositeBasis.container_eq
    (contained : ∀ member ∈ members.toList, member.container = .ok (containers member)) :
    container ⟨blocked, members⟩ =
      if blocked then .ok (Descriptor.ofChildren (members.toList.map containers))
      else if (members.toList.map containers).all Descriptor.isFlat then do
        let size ← Index.sumOver (fun child => .ok child.size) (members.toList.map containers)
        .ok (Descriptor.flatVector size)
      else .ok .unknown := by
  rw [container, mapM_eq_ok contained, ok_bind]

theorem CompositeBasis.exists_hasContainer_blocked
    (has : ∀ member ∈ members.toList,
      member.HasContainer (numbers member) numElements (dimensions member) (containers member))
    (room : (members.toList.map dimensions).sum < Index.limit) :
    ∃ form, (CompositeBasis.toBasis ⟨true, members⟩).HasContainer
      (.joined true (members.toList.map numbers)) numElements (members.toList.map dimensions).sum
      (.block form (members.toList.map containers)) := by
  obtain ⟨form, block⟩ := Descriptor.ofChildren_eq_block (members.toList.map containers)
  have contained : container ⟨true, members⟩ =
      .ok (.block form (members.toList.map containers)) := by
    rw [container_eq (fun member inMembers => (has member inMembers).contained), if_pos rfl, block]
  refine ⟨form, contained, nofun, fun isFlat => ?_, ?_, ?_⟩
  · have first := (has _ members.first_mem).not_isValue
    simp [Descriptor.isFlat, Members.toList, first] at isFlat
  · have count : (Descriptor.block form (members.toList.map containers)).size = members.count :=
      List.length_map ..
    refine Descriptor.mirrors_of_children (congrArg Except.ok count.symm) nofun
      Numbering.not_occurs_joined_nil (fun entry below => ?_)
    rw [count] at below
    have found := members.getElem?_toList below
    refine ⟨containers (members.at entry), ?_, ?_⟩
    · exact Index.entry_eq_ok_iff.mpr (by rw [List.getElem?_map, found]; rfl)
    · refine (has _ (members.at_mem below)).mirrors.congr (fun stem => ?_) (fun index => ?_)
      · change CompositeBasis.size ⟨true, members⟩ (entry :: stem) = _
        simp only [CompositeBasis.size, if_pos below, members.member_eq_ok below, ok_bind]
      · exact Numbering.occurs_joined_cons_iff (by rw [List.getElem?_map, found]; rfl)
  · have measures := @Descriptor.measures_block form _ members.toList containers dimensions
      Basis.maxIndexLength (fun member inMembers => (has member inMembers).measures) room
    rwa [Nat.add_comm] at measures

theorem CompositeBasis.flatSize_of_flat {parts : List Basis} {offset number : Nat} {rest : List Nat}
    (flat : ∀ member ∈ parts,
      member.HasFlatContainer (numbers member) numElements (dimensions member))
    (room : offset + (parts.map dimensions).sum < Index.limit) (behind : offset ≤ number)
    (below : number < offset + (parts.map dimensions).sum) :
    flatSize number rest offset parts = .ok 0 := by
  induction parts generalizing offset with
  | nil =>
      rw [List.map_nil, List.sum_nil] at below
      omega
  | cons first others ih =>
      rw [List.map_cons, List.sum_cons] at room below
      have flatFirst := flat first (by simp)
      have past : Index.add offset (dimensions first) = .ok (offset + dimensions first) :=
        Index.add_eq_ok_iff.mpr ⟨by omega, rfl⟩
      rw [flatSize, flatFirst.sizeNil, ok_bind, past, ok_bind]
      by_cases inFirst : number < offset + dimensions first
      · rw [if_pos inFirst]
        exact flatFirst.sizeCons (number - offset) (by omega) rest
      · rw [if_neg inFirst]
        exact ih (fun member inOthers => flat member (by simp [inOthers])) (by omega) (by omega)
          (by omega)

theorem CompositeBasis.maxIndexLength_of_flat
    (flat : ∀ member ∈ members.toList, member.maxIndexLength = 1) :
    (CompositeBasis.toBasis ⟨false, members⟩).maxIndexLength = 1 := by
  change (members.toList.map Basis.maxIndexLength).foldl max 0 = 1
  obtain ⟨-, bound, attained⟩ := foldl_max_spec (members.toList.map Basis.maxIndexLength) 0
  have least := bound _ (List.mem_map_of_mem members.first_mem)
  rw [flat _ members.first_mem] at least
  rcases attained with zero | inList
  · omega
  · obtain ⟨member, inMembers, equal⟩ := List.mem_map.mp inList
    rw [← equal, flat member inMembers]

theorem CompositeBasis.hasFlatContainer
    (flat : ∀ member ∈ members.toList,
      member.HasFlatContainer (numbers member) numElements (dimensions member))
    (room : (members.toList.map dimensions).sum < Index.limit) :
    (CompositeBasis.toBasis ⟨false, members⟩).HasFlatContainer
      (.joined false (members.toList.map numbers)) numElements
      (members.toList.map dimensions).sum := by
  have sizes : ((members.toList.map (fun member =>
      Descriptor.flatVector (dimensions member))).map Descriptor.size) =
        members.toList.map dimensions := by
    rw [List.map_map]
    rfl
  constructor
  · change CompositeBasis.container _ = _
    rw [container_eq (fun member inMembers => (flat member inMembers).contained), if_neg (by simp),
      if_pos (by simp [Descriptor.isFlat, Descriptor.isValue, Descriptor.flatVector,
        Descriptor.uniformVector]),
      Index.sumOver_eq_ok (fun _ _ => rfl) (by rwa [sizes]), sizes, ok_bind]
  · exact Index.sumOver_eq_ok (fun member inMembers => (flat member inMembers).sizeNil) room
  · intro number below rest
    have fromZero : number < 0 + (members.toList.map dimensions).sum := by rwa [Nat.zero_add]
    exact flatSize_of_flat flat (by rwa [Nat.zero_add]) (Nat.zero_le number) fromZero
  · exact maxIndexLength_of_flat (fun member inMembers => (flat member inMembers).length)
  · change ((members.toList.map numbers).map Numbering.root).sum = _
    rw [List.map_map]
    exact congrArg List.sum (List.map_congr_left (fun member inMembers => (flat member inMembers).root))
  · refine Numbering.occursFlat_joined (fun part inParts => ?_)
    obtain ⟨member, inMembers, rfl⟩ := List.mem_map.mp inParts
    exact (flat member inMembers).occurs

theorem CompositeBasis.exists_hasContainer
    (has : ∀ member ∈ members.toList,
      member.HasContainer (numbers member) numElements (dimensions member) (containers member))
    (room : (members.toList.map dimensions).sum < Index.limit) (blocked : Bool) :
    ∃ node, (CompositeBasis.toBasis ⟨blocked, members⟩).HasContainer
      (.joined blocked (members.toList.map numbers)) numElements
      (members.toList.map dimensions).sum node := by
  cases blocked with
  | true =>
      obtain ⟨form, hasBlock⟩ := exists_hasContainer_blocked has room
      exact ⟨_, hasBlock⟩
  | false =>
      by_cases flat : (members.toList.map containers).all Descriptor.isFlat = true
      · rw [List.all_map, List.all_eq_true] at flat
        exact ⟨_, (hasFlatContainer (fun member inMembers =>
          (has member inMembers).flat (flat member inMembers)) room).hasContainer room⟩
      · refine ⟨.unknown, Basis.hasContainer_of_unknown ?_⟩
        change CompositeBasis.container _ = _
        rw [container_eq (fun member inMembers => (has member inMembers).contained),
          if_neg (by simp), if_neg flat]

end Composite

end DofNumbering
