import DofNumbering.Proofs.Built
import DofNumbering.Proofs.Sizes.Descriptions

namespace DofNumbering

/-! What a built basis answers about any stem, possible or not.

If the numbers are indices, the answer is a size or that a blocked node has no such
child, except that a flat interleaved power without copies divides by their number.
After as many entries as an index can have the size is zero.
-/

/-- The answers about a stem, if indices have at most `bound` entries. -/
inductive Answer (bound : Nat) (stem : List Nat) (mayFail : Fault → Prop) : Except Fault Nat → Prop where
  | size {size : Nat} (short : 0 < size → stem.length < bound) : Answer bound stem mayFail (.ok size)
  | fault {fault : Fault} (permitted : mayFail fault) : Answer bound stem mayFail (.error fault)

namespace Answer

variable {bound bound' : Nat} {stem stem' : List Nat} {mayFail mayFail' : Fault → Prop}
  {result : Except Fault Nat} {rest : Nat → Except Fault Nat}

theorem zero : Answer bound stem mayFail (.ok 0) :=
  .size (fun positive => absurd positive (Nat.lt_irrefl 0))

theorem bind (answer : Answer bound stem mayFail result)
    (also : ∀ fault, mayFail fault → mayFail' fault)
    (next : ∀ size, result = .ok size → (0 < size → stem.length < bound) →
      Answer bound' stem' mayFail' (rest size)) : Answer bound' stem' mayFail' (result >>= rest) := by
  cases answer with
  | size short => exact next _ rfl short
  | fault permitted => exact .fault (also _ permitted)

theorem mono (answer : Answer bound stem mayFail result)
    (also : ∀ fault, mayFail fault → mayFail' fault)
    (short : stem.length < bound → stem'.length < bound') : Answer bound' stem' mayFail' result := by
  cases answer with
  | size short' => exact .size (short ∘ short')
  | fault permitted => exact .fault (also _ permitted)

end Answer

/-- The basis answers about every stem. -/
def Basis.Answers (basis : Basis) : Prop :=
  ∀ stem, Answer basis.maxIndexLength stem basis.description.mayFail (basis.size stem)

/-- The number of values of the first entry is not larger than that of the degrees of freedom. -/
structure Basis.Rooted (basis : Basis) (numbering : Numbering) : Prop where
  lengthPos : 0 < basis.maxIndexLength
  sizeNil : basis.size [] = .ok numbering.root
  rootLe : numbering.root ≤ numbering.dofs
  dofsPos : 0 < numbering.dofs

variable {grid : GridView} {basis child : Basis} {numbering : Numbering} {least exponent : Nat}
  {merging : Merging} {blocked : Bool} {members : Members}

section Roots

theorem PowerBasis.rooted (rooted : child.Rooted numbering)
    (room : (numbering.power merging exponent).dofs < Index.limit) :
    (PowerBasis.toBasis ⟨merging, exponent, child⟩).Rooted (numbering.power merging exponent) where
  lengthPos := Nat.lt_of_lt_of_le rooted.lengthPos (Nat.le_add_right _ _)
  sizeNil := by
    refine size_nil rooted.sizeNil (Nat.lt_of_le_of_lt ?_ room)
    exact Nat.mul_le_mul (Nat.le_max_right ..) rooted.rootLe
  rootLe := Numbering.root_power_le rooted.rootLe rooted.dofsPos
  dofsPos := Nat.lt_of_lt_of_le rooted.dofsPos Numbering.dofs_le_power

variable {numbering : Basis → Numbering}

theorem CompositeBasis.sum_roots_lt
    (rooted : ∀ member ∈ members.toList, member.Rooted (numbering member))
    (room : (Numbering.joined blocked (members.toList.map numbering)).dofs < Index.limit) :
    ((members.toList.map numbering).map Numbering.root).sum < Index.limit := by
  refine Nat.lt_of_le_of_lt ?_ room
  exact List.sum_le_sum (List.forall_mem_map.mpr fun member inMembers =>
    (rooted member inMembers).rootLe)

theorem CompositeBasis.rooted
    (rooted : ∀ member ∈ members.toList, member.Rooted (numbering member))
    (room : (Numbering.joined blocked (members.toList.map numbering)).dofs < Index.limit) :
    (CompositeBasis.toBasis ⟨blocked, members⟩).Rooted
      (.joined blocked (members.toList.map numbering)) where
  lengthPos := by
    have first := Nat.lt_of_lt_of_le (rooted _ members.first_mem).lengthPos
      (Members.maxIndexLength_le members.first_mem)
    exact Nat.lt_of_lt_of_le first (Nat.le_add_right _ _)
  sizeNil := size_nil (fun member inMembers => (rooted member inMembers).sizeNil)
    (sum_roots_lt rooted room)
  rootLe := Numbering.root_joined_le
    (List.forall_mem_map.mpr fun member inMembers => (rooted member inMembers).rootLe)
    (List.forall_mem_map.mpr fun member inMembers => (rooted member inMembers).dofsPos)
  dofsPos := Nat.lt_of_lt_of_le (rooted _ members.first_mem).dofsPos
    (Numbering.dofs_le_joined (List.mem_map_of_mem members.first_mem))

end Roots

theorem Members.dofs_lt {numbering : Basis → Numbering} {member : Basis}
    (room : (Numbering.joined blocked (members.toList.map numbering)).dofs < Index.limit)
    (inMembers : member ∈ members.toList) : (numbering member).dofs < Index.limit :=
  Nat.lt_of_le_of_lt (Numbering.dofs_le_joined (List.mem_map_of_mem inMembers)) room

theorem Numbered.rooted (numbered : Numbered grid least basis numbering)
    (vertices : 0 < grid.size 2) (room : numbering.dofs < Index.limit) :
    basis.Rooted numbering := by
  induction numbered with
  | @lagrange order basis created =>
      obtain ⟨-, counted⟩ := LagrangeBasis.create_eq_ok created
      refine ⟨Nat.one_pos, rfl, Nat.le_refl _, ?_⟩
      change 0 < basis.dimension
      cases shape : basis.finite with
      | linear =>
          rw [shape, LagrangeBasis.dofCount] at counted
          exact Except.ok.inj counted ▸ vertices
      | quadratic =>
          rw [shape, LagrangeBasis.dofCount] at counted
          obtain ⟨-, counted⟩ := Index.add_eq_ok_iff.mp counted
          omega
  | power _ _ _ _ ih =>
      exact PowerBasis.rooted (ih (Nat.lt_of_le_of_lt Numbering.dofs_le_power room)) room
  | composite numbering created _ ih =>
      cases CompositeBasis.create_eq_ok created
      exact CompositeBasis.rooted (fun member inMembers =>
        ih member inMembers (Members.dofs_lt room inMembers)) room
  | tagged _ _ ih =>
      obtain ⟨lengthPos, sizeNil, rootLe, dofsPos⟩ := ih room
      exact ⟨lengthPos, sizeNil, rootLe, dofsPos⟩

theorem Numbered.members_rooted {numbering : Basis → Numbering}
    (membersNumbered : ∀ member ∈ members.toList, Numbered grid least member (numbering member))
    (vertices : 0 < grid.size 2)
    (room : (Numbering.joined blocked (members.toList.map numbering)).dofs < Index.limit) :
    ∀ member ∈ members.toList, member.Rooted (numbering member) :=
  fun member inMembers => (membersNumbered member inMembers).rooted vertices
    (Members.dofs_lt room inMembers)

section Powers

theorem PowerBasis.flatSize_cons_of_empty {childFirst : Nat → Nat → Except Fault Nat} {first : Nat}
    {rest : List Nat} (empty : child.size [] = .ok 0) :
    flatSize ⟨merging, exponent, child⟩ childFirst (first :: rest) = .ok 0 := by
  rw [flatSize, empty, ok_bind]
  exact if_pos rfl

/-- A flat power passes a stem on with the first entry that it makes of the one of the stem. -/
theorem PowerBasis.flatSize_cons {childFirst : Nat → Nat → Except Fault Nat} {first inner : Nat}
    (rooted : child.Rooted numbering) (positive : 0 < numbering.root)
    (found : childFirst first numbering.root = .ok inner) (rest : List Nat) :
    flatSize ⟨merging, exponent, child⟩ childFirst (first :: rest) = child.size (inner :: rest) := by
  rw [flatSize, rooted.sizeNil, ok_bind]
  dsimp only
  rw [if_neg (Nat.ne_of_gt positive), found, ok_bind]

variable {mayFail : Fault → Prop} (answers : child.Answers)
  (also : ∀ fault, child.description.mayFail fault → mayFail fault) (stem : List Nat)

include answers also

theorem PowerBasis.answers_blockedSize (notFlat : ∀ first, mayFail (.powerChild first exponent)) :
    Answer (child.maxIndexLength + 1) stem mayFail
      (blockedSize ⟨merging, exponent, child⟩ stem) := by
  cases stem with
  | nil => exact .size (fun _ => Nat.succ_pos _)
  | cons first rest =>
      rw [blockedSize]
      by_cases inRange : first < exponent
      · rw [if_pos inRange]
        exact (answers rest).mono also Nat.succ_lt_succ
      · rw [if_neg inRange]
        exact .fault (notFlat first)

theorem PowerBasis.answers_blockedInterleavedSize :
    Answer (child.maxIndexLength + 1) stem mayFail
      (blockedInterleavedSize ⟨merging, exponent, child⟩ stem) := by
  rw [blockedInterleavedSize]
  refine (answers stem).bind also (fun size _ short => ?_)
  by_cases inner : 0 < size ∨ stem = []
  · rw [if_pos inner]
    exact .size (fun positive => Nat.lt_succ_of_lt (short positive))
  · rw [if_neg inner]
    refine (answers stem.dropLast).bind also (fun lastSize _ short => .size (fun positive => ?_))
    by_cases last : 0 < lastSize
    · have lengths := short last
      rw [List.length_dropLast] at lengths
      omega
    · rw [if_neg last] at positive
      exact absurd positive (Nat.lt_irrefl 0)

/-- The first entry only fails to be one of the child by a division by zero. -/
theorem PowerBasis.answers_flatSize {childFirst : Nat → Nat → Except Fault Nat}
    (rooted : child.Rooted numbering) (room : exponent * numbering.root < Index.limit)
    (firsts : ∀ first, 0 < numbering.root → (∃ inner, childFirst first numbering.root = .ok inner) ∨
      childFirst first numbering.root = .error .arithmetic ∧ mayFail .arithmetic) :
    Answer child.maxIndexLength stem mayFail
      (flatSize ⟨merging, exponent, child⟩ childFirst stem) := by
  cases stem with
  | nil =>
      have product : Index.mul exponent numbering.root = .ok (exponent * numbering.root) :=
        Index.mul_eq_ok_iff.mpr ⟨room, rfl⟩
      rw [flatSize, rooted.sizeNil, ok_bind]
      dsimp only
      rw [product]
      exact .size (fun _ => rooted.lengthPos)
  | cons first rest =>
      by_cases empty : numbering.root = 0
      · rw [flatSize_cons_of_empty (empty ▸ rooted.sizeNil)]
        exact .zero
      · have positive := Nat.pos_of_ne_zero empty
        rcases firsts first positive with ⟨inner, found⟩ | ⟨failed, byZero⟩
        · rw [flatSize_cons rooted positive found]
          exact (answers (inner :: rest)).mono also id
        · rw [flatSize, rooted.sizeNil, ok_bind]
          dsimp only
          rw [if_neg empty, failed, error_bind]
          exact .fault byZero

end Powers

theorem PowerBasis.answers (answers : child.Answers) (rooted : child.Rooted numbering)
    (room : exponent * numbering.root < Index.limit) :
    (PowerBasis.toBasis ⟨merging, exponent, child⟩).Answers := by
  intro stem
  change Answer (child.maxIndexLength + merging.blocked.toNat) stem
    (Description.power child.description exponent merging).mayFail
    (PowerBasis.size ⟨merging, exponent, child⟩ stem)
  have also := fun fault =>
    @Description.mayFail_power child.description exponent merging fault
  obtain ⟨blocked, layout⟩ := merging
  cases blocked with
  | true =>
      cases layout with
      | lexicographic => exact answers_blockedSize answers also stem (fun _ => rfl)
      | interleaved => exact answers_blockedInterleavedSize answers also stem
  | false =>
      cases layout with
      | lexicographic =>
          refine answers_flatSize answers also stem rooted room (fun first positive => .inl ?_)
          exact ⟨first % numbering.root, if_neg (Nat.ne_of_gt positive)⟩
      | interleaved =>
          refine answers_flatSize answers also stem rooted room (fun first _ => ?_)
          by_cases none : exponent = 0
          · exact .inr ⟨if_pos none,
              by simp [Description.mayFail, Description.divides, none, Merging.flatInterleaved]⟩
          · exact .inl ⟨first / exponent, if_neg none⟩

section Composites

variable {numbering : Basis → Numbering} {parts : List Basis}

/-- A flat composite passes a stem on to the member that the first entry belongs to, if
there is one. -/
theorem CompositeBasis.flatSize_cases
    (rooted : ∀ member ∈ parts, member.Rooted (numbering member)) (first offset : Nat)
    (room : offset + ((parts.map numbering).map Numbering.root).sum < Index.limit)
    (behind : offset ≤ first) :
    (offset + ((parts.map numbering).map Numbering.root).sum ≤ first ∧
      ∀ rest, flatSize first rest offset parts = .ok 0) ∨
      ∃ i member, parts[i]? = some member ∧ ∃ inner < (numbering member).root,
        first = offset + partOffset ((parts.map numbering).map Numbering.root) i + inner ∧
        ∀ rest, flatSize first rest offset parts = member.size (inner :: rest) := by
  induction parts generalizing offset with
  | nil => exact .inl ⟨behind, fun _ => rfl⟩
  | cons member others ih =>
      rw [List.map_cons, List.map_cons, List.sum_cons] at room ⊢
      have past : Index.add offset (numbering member).root = .ok (offset + (numbering member).root) :=
        Index.add_eq_ok_iff.mpr ⟨by omega, rfl⟩
      have step : ∀ rest, flatSize first rest offset (member :: others) =
          if first < offset + (numbering member).root then member.size ((first - offset) :: rest)
          else flatSize first rest (offset + (numbering member).root) others := by
        intro rest
        rw [flatSize, (rooted member List.mem_cons_self).sizeNil, ok_bind, past, ok_bind]
      by_cases here : first < offset + (numbering member).root
      · simp only [step, if_pos here]
        refine .inr ⟨0, member, rfl, first - offset, by omega, ?_, fun _ => rfl⟩
        rw [partOffset_zero]
        omega
      · simp only [step, if_neg here]
        rcases ih (fun other inOthers => rooted other (List.mem_cons_of_mem _ inOthers)) _
          (by omega) (Nat.le_of_not_lt here) with
          ⟨outside, none⟩ | ⟨i, found, atI, inner, below, equal, passes⟩
        · exact .inl ⟨by omega, none⟩
        · refine .inr ⟨i + 1, found, atI, inner, below, ?_, passes⟩
          rw [partOffset_cons_succ]
          omega

theorem CompositeBasis.size_blocked_cons {first : Nat} (inRange : first < members.count)
    (rest : List Nat) :
    CompositeBasis.size ⟨true, members⟩ (first :: rest) = (members.at first).size rest := by
  simp only [CompositeBasis.size, if_pos inRange, members.member_eq_ok inRange, ok_bind]

theorem CompositeBasis.answers
    (rooted : ∀ member ∈ members.toList, member.Rooted (numbering member))
    (answers : ∀ member ∈ members.toList, member.Answers)
    (room : ((members.toList.map numbering).map Numbering.root).sum < Index.limit) :
    (CompositeBasis.toBasis ⟨blocked, members⟩).Answers := by
  intro stem
  change Answer ((members.toList.map Basis.maxIndexLength).foldl max 0 + blocked.toNat) stem
    (Description.composite (members.toList.map Basis.description)
      ⟨blocked, .lexicographic⟩).mayFail
    (CompositeBasis.size ⟨blocked, members⟩ stem)
  have each : ∀ member ∈ members.toList, ∀ stem,
      Answer ((members.toList.map Basis.maxIndexLength).foldl max 0) stem
        (Description.composite (members.toList.map Basis.description)
          ⟨blocked, .lexicographic⟩).mayFail (member.size stem) := by
    intro member inMembers stem
    refine (answers member inMembers stem).mono
      (fun _ => Description.mayFail_composite (List.mem_map_of_mem inMembers)) (fun short => ?_)
    exact Nat.lt_of_lt_of_le short (Members.maxIndexLength_le inMembers)
  cases blocked with
  | true =>
      cases stem with
      | nil => exact .size (fun _ => Nat.succ_pos _)
      | cons first rest =>
          by_cases inRange : first < members.count
          · rw [size_blocked_cons inRange]
            exact (each _ (members.at_mem inRange) rest).mono (fun _ => id) Nat.succ_lt_succ
          · simp only [CompositeBasis.size, if_neg inRange]
            exact .fault rfl
  | false =>
      cases stem with
      | nil =>
          rw [size_nil (fun member inMembers => (rooted member inMembers).sizeNil) room]
          refine .size (fun _ => Nat.lt_of_lt_of_le (rooted _ members.first_mem).lengthPos ?_)
          exact Members.maxIndexLength_le members.first_mem
      | cons first rest =>
          change Answer _ _ _ (flatSize first rest 0 members.toList)
          rcases flatSize_cases rooted first 0 (by omega) (Nat.zero_le first) with
            ⟨-, none⟩ | ⟨i, member, found, inner, -, -, passes⟩
          · rw [none]
            exact .zero
          · rw [passes]
            exact (each member (List.mem_of_getElem? found) (inner :: rest)).mono (fun _ => id) id

end Composites

theorem Numbered.answers (numbered : Numbered grid least basis numbering)
    (vertices : 0 < grid.size 2) (room : numbering.dofs < Index.limit) : basis.Answers := by
  induction numbered with
  | @lagrange order basis created =>
      intro stem
      cases stem with
      | nil => exact .size (fun _ => Nat.one_pos)
      | cons first rest => exact .zero
  | @power child numbering merging exponent _ childNumbered ih =>
      have roomChild := Nat.lt_of_le_of_lt Numbering.dofs_le_power room
      have rooted := childNumbered.rooted vertices roomChild
      refine PowerBasis.answers (ih roomChild) rooted (Nat.lt_of_le_of_lt ?_ room)
      exact Nat.mul_le_mul (Nat.le_max_right ..) rooted.rootLe
  | @composite blocked members basis numbering created membersNumbered ih =>
      cases CompositeBasis.create_eq_ok created
      have rooted := members_rooted membersNumbered vertices room
      exact CompositeBasis.answers rooted (fun member inMembers =>
        ih member inMembers (Members.dofs_lt room inMembers))
        (CompositeBasis.sum_roots_lt rooted room)
  | tagged _ _ ih => exact ih room

end DofNumbering
