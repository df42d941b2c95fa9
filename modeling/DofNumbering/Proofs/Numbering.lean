import DofNumbering.Merging
import DofNumbering.Proofs.IndexTree.Interleaving

namespace DofNumbering

/-! Numberings of the degrees of freedom of a basis.

A numbering says which index each local degree of freedom of each element has.
The numbering of a node is that of its children, one after the other or taking
turns.
-/

structure Numbering where
  /-- The number of local degrees of freedom of an element. -/
  size : Nat
  /-- The local size if every exponent zero is read as one. -/
  places : Nat
  /-- The number of global degrees of freedom if every exponent zero is read as one. -/
  dofs : Nat
  /-- The number of values of the first entry. -/
  root : Nat
  index : (element position : Nat) → MultiIndex
  tree : IndexTree
deriving Inhabited

namespace Numbering

/-- The index at a position behind the positions of `part` parts, which have
`offset` values of the first entry. -/
def joinedIndex (blocked : Bool) (element : Nat) :
    (offset part : Nat) → List Numbering → (position : Nat) → MultiIndex
  | _, _, [], _ => []
  | offset, part, first :: others, position =>
      if position < first.size then .joined blocked offset part (first.index element position)
      else joinedIndex blocked element (offset + first.root) (part + 1) others
        (position - first.size)

/-- Several parts one after the other. -/
def joined (blocked : Bool) (parts : List Numbering) : Numbering where
  size := (parts.map size).sum
  places := (parts.map places).sum
  dofs := (parts.map dofs).sum
  root := if blocked then parts.length else (parts.map root).sum
  index element := joinedIndex blocked element 0 0 parts
  tree := .joined blocked (parts.map tree)

/-- Copies that take turns. -/
def interleaved (blocked : Bool) (count : Nat) (child : Numbering) : Numbering where
  size := count * child.size
  places := count * child.places
  dofs := count * child.dofs
  root := if blocked then child.root else count * child.root
  index element position :=
    .interleaved blocked count (position % count) (child.index element (position / count))
  tree := .interleaved blocked count child.tree

def copies (merging : Merging) (exponent : Nat) (child : Numbering) : Numbering :=
  match merging.layout with
  | .lexicographic => joined merging.blocked (List.replicate exponent child)
  | .interleaved => interleaved merging.blocked exponent child

def power (merging : Merging) (exponent : Nat) (child : Numbering) : Numbering :=
  { copies merging exponent child with
    places := max 1 exponent * child.places
    dofs := max 1 exponent * child.dofs }

variable {blocked : Bool} {parts : List Numbering} {numbering child : Numbering}
  {element position part count exponent : Nat} {merging : Merging}

theorem joinedIndex_slot {offset first : Nat} (found : parts[part]? = some numbering)
    (below : position < numbering.size) :
    joinedIndex blocked element offset first parts (partOffset (parts.map size) part + position) =
      .joined blocked (offset + partOffset (parts.map root) part) (first + part)
        (numbering.index element position) := by
  induction parts generalizing part offset first with
  | nil => simp at found
  | cons head others ih =>
      cases part with
      | zero =>
          obtain rfl : head = numbering := by simpa using found
          simp [joinedIndex, below]
      | succ part =>
          have inOthers : others[part]? = some numbering := by simpa using found
          rw [List.map_cons, List.map_cons, partOffset_cons_succ, partOffset_cons_succ,
            joinedIndex, if_neg (by omega),
            show head.size + partOffset (others.map size) part + position - head.size =
              partOffset (others.map size) part + position by omega, ih inOthers]
          congr 1 <;> omega

theorem index_joined (found : parts[part]? = some numbering) (below : position < numbering.size) :
    (joined blocked parts).index element (partOffset (parts.map size) part + position) =
      .joined blocked (partOffset (parts.map root) part) part (numbering.index element position) := by
  have slot := @joinedIndex_slot blocked parts numbering element position part 0 0 found below
  rwa [Nat.zero_add, Nat.zero_add] at slot

theorem index_interleaved (below : part < count) :
    (interleaved blocked count child).index element (position * count + part) =
      .interleaved blocked count part (child.index element position) := by
  have turn : (position * count + part) % count = part := by
    rw [Nat.mul_add_mod', Nat.mod_eq_of_lt below]
  have copy : (position * count + part) / count = position := by
    rw [Nat.mul_comm, Nat.mul_add_div (by omega), Nat.div_eq_of_lt below, Nat.add_zero]
  simp only [interleaved, turn, copy]

theorem size_power (merging : Merging) : (child.power merging exponent).size = exponent * child.size := by
  obtain ⟨blocked, layout⟩ := merging
  cases layout with
  | lexicographic => simp [power, copies, joined]
  | interleaved => rfl

theorem dofs_le_power : child.dofs ≤ (child.power merging exponent).dofs :=
  Nat.le_mul_of_pos_left _ (Nat.le_max_left 1 exponent)

theorem places_le_power : child.places ≤ (child.power merging exponent).places :=
  Nat.le_mul_of_pos_left _ (Nat.le_max_left 1 exponent)

theorem dofs_le_joined (inParts : numbering ∈ parts) :
    numbering.dofs ≤ (joined blocked parts).dofs :=
  List.le_sum_of_mem (List.mem_map_of_mem inParts)

theorem places_le_joined (inParts : numbering ∈ parts) :
    numbering.places ≤ (joined blocked parts).places :=
  List.le_sum_of_mem (List.mem_map_of_mem inParts)

/-- The first entries on an element are among the values of the first entry. -/
def Headed (numbering : Numbering) (element : Nat) : Prop :=
  ∀ j < numbering.size, ∃ first rest,
    numbering.index element j = first :: rest ∧ first < numbering.root

theorem headed_joined (headed : ∀ numbering ∈ parts, numbering.Headed element) :
    (joined blocked parts).Headed element := by
  intro j below
  obtain ⟨i, _, position, found, within, rfl⟩ := exists_part below
  obtain ⟨numbering, foundPart, rfl⟩ : ∃ numbering, parts[i]? = some numbering ∧
      numbering.size = _ := by simpa using found
  obtain ⟨first, rest, equal, inRange⟩ :=
    headed numbering (List.mem_of_getElem? foundPart) position within
  rw [index_joined foundPart within, equal]
  cases blocked with
  | true => exact ⟨i, _, rfl, (List.getElem?_eq_some_iff.mp foundPart).1⟩
  | false => exact ⟨_, rest, rfl, (tiling_consecutive (parts.map root)).lt_sum
      (by simp [foundPart]) inRange⟩

theorem headed_interleaved (headed : child.Headed element) :
    (interleaved blocked count child).Headed element := by
  intro j below
  have positive : 0 < count := Nat.pos_of_mul_pos_right (Nat.zero_lt_of_lt below)
  obtain ⟨first, rest, equal, inRange⟩ := headed (j / count) (Nat.div_lt_of_lt_mul below)
  have turn : j % count < count := Nat.mod_lt _ positive
  simp only [interleaved, equal]
  cases blocked with
  | true => exact ⟨first, _, rfl, inRange⟩
  | false =>
      refine ⟨_, rest, rfl, ?_⟩
      have slot := (tiling_interleaved count child.root).lt_sum
        (by rw [List.getElem?_replicate, if_pos turn]) inRange
      rwa [List.sum_replicate_nat] at slot

theorem headed_power (headed : child.Headed element) :
    (child.power merging exponent).Headed element := by
  obtain ⟨blocked, layout⟩ := merging
  cases layout with
  | lexicographic => exact headed_joined (fun _ member => List.eq_of_mem_replicate member ▸ headed)
  | interleaved => exact headed_interleaved headed

theorem root_joined_le (rootLe : ∀ part ∈ parts, part.root ≤ part.dofs)
    (positive : ∀ part ∈ parts, 0 < part.dofs) :
    (joined blocked parts).root ≤ (joined blocked parts).dofs := by
  cases blocked with
  | true =>
      have counted := List.length_le_sum_of_one_le (parts.map dofs) (by
        intro dofs inDofs
        obtain ⟨part, inParts, rfl⟩ := List.mem_map.mp inDofs
        exact positive part inParts)
      rwa [List.length_map] at counted
  | false => exact List.sum_le_sum rootLe

theorem root_power_le (rootLe : child.root ≤ child.dofs) (positive : 0 < child.dofs) :
    (child.power merging exponent).root ≤ (child.power merging exponent).dofs := by
  have once : 1 * child.dofs ≤ max 1 exponent * child.dofs :=
    Nat.mul_le_mul_right _ (Nat.le_max_left ..)
  have flat : exponent * child.root ≤ max 1 exponent * child.dofs :=
    Nat.mul_le_mul (Nat.le_max_right ..) rootLe
  have blocked : exponent * 1 ≤ max 1 exponent * child.dofs :=
    Nat.mul_le_mul (Nat.le_max_right ..) positive
  obtain ⟨blocked, layout⟩ := merging
  cases layout <;> cases blocked <;> simp [power, copies, joined, interleaved] <;> omega

end Numbering

end DofNumbering
