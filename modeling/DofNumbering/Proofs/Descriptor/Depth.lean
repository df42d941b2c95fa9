import DofNumbering.Proofs.Descriptor.Addresses
import Mathlib.Order.Bounds.Basic
import Mathlib.Order.Lattice.Nat

namespace DofNumbering.Descriptor

/-! The depth of a container and its longest addresses.

The depth goes into every part, also into one that holds no scalar: a block without
children, an unknown part or the child behind zero copies of it.  It is therefore the larger
one of the longest path to a scalar and of the deepest end of such a hollow part.
-/

variable {node child part : Descriptor} {children : List Descriptor} {entry bound : Nat}
  {path : MultiIndex}

theorem depthOfAll_le_iff :
    depthOfAll children ≤ bound ↔ ∀ child ∈ children, child.depth ≤ bound := by
  induction children with
  | nil => simp [depthOfAll]
  | cons child children ih => simp [depthOfAll, ih]

theorem depth_child_lt (found : node.child entry = .ok child) : child.depth < node.depth := by
  cases node with
  | unknown => cases found
  | value => cases found
  | block form children =>
      have inChildren := List.mem_of_getElem? (Index.entry_eq_ok_iff.mp found)
      have below := depthOfAll_le_iff.mp (le_refl (depthOfAll children)) child inChildren
      rw [depth]
      omega
  | uniform extent inner =>
      obtain ⟨-, rfl⟩ := child_uniform_eq_ok_iff.mp found
      rw [depth]
      omega

/-- The depth covers the path to each part together with the depth of the part. -/
theorem length_add_depth_le (found : node.descendant path = .ok part) :
    path.length + part.depth ≤ node.depth := by
  induction path generalizing node with
  | nil =>
      obtain rfl := Except.ok.inj found
      simp
  | cons entry rest ih =>
      obtain ⟨child, foundChild, foundRest⟩ := bind_eq_ok_iff.mp found
      have step := depth_child_lt foundChild
      have inside := ih foundRest
      rw [List.length_cons]
      omega

/-- No path addresses a scalar. -/
def Hollow (node : Descriptor) : Prop := ∀ path, ¬ node.Addresses path

/-- Neither a path to a scalar nor the end of a hollow part goes beyond the bound. -/
structure EndsWithin (node : Descriptor) (bound : Nat) : Prop where
  scalars : ∀ path, node.Addresses path → path.length ≤ bound
  hollow : ∀ path part, node.descendant path = .ok part → part.Hollow →
    path.length + part.depth ≤ bound

theorem EndsWithin.at_child (ends : node.EndsWithin (bound + 1))
    (found : node.child entry = .ok child) : child.EndsWithin bound where
  scalars path addressed := by
    have inNode := ends.scalars _ (addresses_cons_iff.mpr ⟨child, found, addressed⟩)
    rw [List.length_cons] at inNode
    omega
  hollow path part foundPart isHollow := by
    have inNode := ends.hollow _ part ((descendant_cons found).trans foundPart) isHollow
    rw [List.length_cons] at inNode
    omega

theorem EndsWithin.below (ends : node.EndsWithin bound) (filled : ¬ node.Hollow)
    (notValue : node ≠ .value) : ∃ inner, bound = inner + 1 ∧
      (∃ entry child, node.child entry = .ok child) ∧
      ∀ entry child, node.child entry = .ok child → child.EndsWithin inner := by
  obtain ⟨path, addressed⟩ := not_forall_not.mp filled
  cases path with
  | nil => exact absurd (addresses_nil_iff.mp addressed) notValue
  | cons entry rest =>
      have room := ends.scalars _ addressed
      obtain ⟨child, found, -⟩ := addresses_cons_iff.mp addressed
      cases bound with
      | zero => exact absurd room (Nat.not_succ_le_zero _)
      | succ inner =>
          exact ⟨inner, rfl, ⟨entry, child, found⟩, fun _ _ found => ends.at_child found⟩

theorem depth_le_of_endsWithin (ends : node.EndsWithin bound) : node.depth ≤ bound := by
  induction node generalizing bound with
  | unknown => simp [depth]
  | value => simp [depth]
  | block form children ih =>
      by_cases isHollow : (block form children).Hollow
      · simpa using ends.hollow [] _ rfl isHollow
      · obtain ⟨inner, rfl, -, each⟩ := ends.below isHollow (by simp)
        have below : depthOfAll children ≤ inner := by
          refine depthOfAll_le_iff.mpr (fun child inChildren => ?_)
          obtain ⟨entry, found⟩ := List.mem_iff_getElem?.mp inChildren
          exact ih child inChildren (each entry child (Index.entry_eq_ok_iff.mpr found))
        rw [depth]
        omega
  | uniform extent child ih =>
      by_cases isHollow : (uniform extent child).Hollow
      · simpa using ends.hollow [] _ rfl isHollow
      · obtain ⟨inner, rfl, ⟨entry, part, found⟩, each⟩ := ends.below isHollow (by simp)
        obtain ⟨-, rfl⟩ := child_uniform_eq_ok_iff.mp found
        have below := ih (each entry part found)
        rw [depth]
        omega

/-- The depth is the larger one of the longest path to a scalar and the deepest end of a
hollow part. -/
theorem depth_le_iff : node.depth ≤ bound ↔ node.EndsWithin bound := by
  constructor
  · intro below
    constructor
    · intro path addressed
      exact (Nat.le_add_right _ _).trans ((length_add_depth_le addressed.scalar).trans below)
    · intro path part found _
      exact (length_add_depth_le found).trans below
  · exact depth_le_of_endsWithin

/-- The longest path to a scalar is no longer than the depth.  They are equal if and only if no
hollow part ends deeper than that, and otherwise the depth is the end of such a part. -/
theorem depth_eq_longest_iff (node : Descriptor) (addressable : ∃ path, node.Addresses path) :
    ∃ longest, IsGreatest (List.length '' {path | node.Addresses path}) longest ∧
      longest ≤ node.depth ∧
      (node.depth = longest ↔ ∀ path part, node.descendant path = .ok part → part.Hollow →
        path.length + part.depth ≤ longest) ∧
      (node.depth ≠ longest → ∃ path part, node.descendant path = .ok part ∧ part.Hollow ∧
        node.depth = path.length + part.depth) := by
  have ends : node.EndsWithin node.depth := depth_le_iff.mp le_rfl
  have upper : node.depth ∈ upperBounds (List.length '' {path | node.Addresses path}) := by
    rintro - ⟨path, addressed, rfl⟩
    exact ends.scalars path addressed
  obtain ⟨path, addressed⟩ := addressable
  obtain ⟨longest, greatest⟩ :
      ∃ longest, IsGreatest (List.length '' {path | node.Addresses path}) longest :=
    ⟨_, Nat.sSup_mem ⟨_, path, addressed, rfl⟩ ⟨_, upper⟩, fun _ => le_csSup ⟨_, upper⟩⟩
  have scalars (path : MultiIndex) (addressed : node.Addresses path) : path.length ≤ longest :=
    greatest.2 ⟨path, addressed, rfl⟩
  have below : longest ≤ node.depth := upper greatest.1
  refine ⟨longest, greatest, below, ⟨fun equal => ?_, fun hollow => ?_⟩, fun deeper => ?_⟩
  · exact equal ▸ ends.hollow
  · exact le_antisymm (depth_le_iff.mpr ⟨scalars, hollow⟩) below
  · by_contra none
    push Not at none
    -- Without such a part everything would end before the depth.
    have short : node.EndsWithin (node.depth - 1) := by
      constructor
      · intro path addressed
        have inside := scalars path addressed
        omega
      · intro path part found isHollow
        have inside := ends.hollow path part found isHollow
        have other := none path part found isHollow
        omega
    have contrary := depth_le_iff.mpr short
    omega

theorem depth_eq_longest_iff_beside_empty_vector :
    (block .tuple [block .array [.value], flatVector 0]).depth = 2 ∧
    IsGreatest (List.length ''
      {path | (block .tuple [block .array [.value], flatVector 0]).Addresses path}) 2 ∧
    ∀ path part, (block .tuple [block .array [.value], flatVector 0]).descendant path = .ok part →
      part.Hollow → path.length + part.depth ≤ 2 := by
  have addressed : (block .tuple [block .array [.value], flatVector 0]).Addresses [0, 0] :=
    mem_addresses_iff.mp (by decide)
  obtain ⟨longest, greatest, below, equal, -⟩ := depth_eq_longest_iff _ ⟨[0, 0], addressed⟩
  have above : 2 ≤ longest := greatest.2 ⟨[0, 0], addressed, rfl⟩
  obtain rfl : 2 = longest := le_antisymm above below
  exact ⟨rfl, greatest, equal.mp rfl⟩

theorem isGreatest_length (path : MultiIndex) (listed : node.addresses = [path]) :
    IsGreatest (List.length '' {path | node.Addresses path}) path.length := by
  constructor
  · exact ⟨path, mem_addresses_iff.mp (by simp [listed]), rfl⟩
  · rintro - ⟨other, addressed, rfl⟩
    have inAddresses := mem_addresses_iff.mpr addressed
    rw [listed, List.mem_singleton] at inAddresses
    rw [inAddresses]

/-- Beside a scalar, an empty array, a vector without coefficients or an array of unknown
parts makes the container deeper than any address in it is long. -/
theorem hollow_part_deepens :
    ((block .tuple [.value, block .array []]).depth = 2 ∧ IsGreatest (List.length ''
      {path | (block .tuple [.value, block .array []]).Addresses path}) 1) ∧
    ((block .tuple [.value, flatVector 0]).depth = 2 ∧ IsGreatest (List.length ''
      {path | (block .tuple [.value, flatVector 0]).Addresses path}) 1) ∧
    ((block .tuple [.value, uniformArray 2 .unknown]).depth = 2 ∧ IsGreatest (List.length ''
      {path | (block .tuple [.value, uniformArray 2 .unknown]).Addresses path}) 1) :=
  ⟨⟨rfl, isGreatest_length [0] rfl⟩, ⟨rfl, isGreatest_length [0] rfl⟩,
    ⟨rfl, isGreatest_length [0] rfl⟩⟩

end DofNumbering.Descriptor
