import DofNumbering.Proofs.Descriptor
import Mathlib.Data.Finset.Card
import Mathlib.Data.List.Range
import Mathlib.Data.Set.Card

namespace DofNumbering.Descriptor

/-! The scalars of a container and their number.

A path addresses a scalar if each of its entries is below the size of the node that it
has reached so far, and if it ends at a value.  Going through a container in order lists
each of these paths once.  The number of scalars counts them, by a sum in a block and by a
product in front of identical children, unless an unknown part leaves the number open.
An unknown part does so also where there are zero copies of it.
-/

variable {node child part : Descriptor} {children : List Descriptor} {form : Form}
  {extent : Extent} {entry first total : Nat} {path rest : MultiIndex} {result : Option Nat}

section Paths

/-- The size of the node that the path reaches. -/
def sizeAfter (node : Descriptor) (path : List Nat) : Except Fault Nat := do
  let reached ← node.descendant path
  .ok reached.size

/-- The path stays below the sizes on its way and ends at a scalar. -/
structure Addresses (node : Descriptor) (path : MultiIndex) : Prop where
  within : MultiIndex.WithinSizes node.sizeAfter path
  scalar : node.descendant path = .ok .value

theorem child_uniform_eq_ok_iff :
    (uniform extent child).child entry = .ok part ↔ entry < extent.size ∧ part = child := by
  rw [Descriptor.child]
  split <;> simp_all [eq_comm]

theorem lt_size_of_child (found : node.child entry = .ok child) : entry < node.size := by
  cases node with
  | unknown => cases found
  | value => cases found
  | block form children => exact (List.getElem?_eq_some_iff.mp (Index.entry_eq_ok_iff.mp found)).1
  | uniform extent inner => exact (child_uniform_eq_ok_iff.mp found).1

theorem sizeAfter_cons (found : node.child entry = .ok child) :
    node.sizeAfter (entry :: path) = child.sizeAfter path := by
  rw [sizeAfter, sizeAfter, descendant_cons found]

theorem addresses_nil_iff : node.Addresses [] ↔ node = .value := by
  constructor
  · rintro ⟨-, scalar⟩
    exact Except.ok.inj scalar
  · rintro rfl
    exact ⟨MultiIndex.withinSizes_nil, rfl⟩

theorem addresses_cons_iff : node.Addresses (entry :: rest) ↔
    ∃ child, node.child entry = .ok child ∧ child.Addresses rest := by
  constructor
  · rintro ⟨within, scalar⟩
    obtain ⟨child, found, scalarRest⟩ := bind_eq_ok_iff.mp scalar
    refine ⟨child, found, ?_, scalarRest⟩
    have withinRest := (MultiIndex.withinSizes_cons_iff.mp within).2
    simpa only [sizeAfter_cons found] using withinRest
  · rintro ⟨child, found, within, scalar⟩
    refine ⟨MultiIndex.withinSizes_cons_iff.mpr ⟨⟨node.size, rfl, lt_size_of_child found⟩, ?_⟩, ?_⟩
    · simpa only [sizeAfter_cons found] using within
    · rw [descendant_cons found, scalar]

end Paths

section Enumeration

mutual

/-- The paths to all scalars, in their order in the container. -/
def addresses : Descriptor → List MultiIndex
  | .unknown => []
  | .value => [[]]
  | .block _ children => addressesFrom 0 children
  | .uniform extent child =>
      (List.range extent.size).flatMap (fun entry => child.addresses.map (entry :: ·))

/-- The paths into the children of a block, of which the first one has the given number. -/
def addressesFrom (first : Nat) : List Descriptor → List MultiIndex
  | [] => []
  | child :: rest => child.addresses.map (first :: ·) ++ addressesFrom (first + 1) rest

end

theorem mem_addressesFrom_iff : path ∈ addressesFrom first children ↔
    ∃ (i : Nat) (child : Descriptor) (rest : MultiIndex), path = (first + i) :: rest ∧
      children[i]? = some child ∧ rest ∈ child.addresses := by
  induction children generalizing first with
  | nil => simp [addressesFrom]
  | cons child children ih =>
      rw [addressesFrom, List.mem_append, List.mem_map, ih]
      constructor
      · rintro (⟨rest, inChild, rfl⟩ | ⟨i, other, rest, rfl, found, inOther⟩)
        · exact ⟨0, child, rest, rfl, rfl, inChild⟩
        · exact ⟨i + 1, other, rest, by rw [Nat.add_right_comm, Nat.add_assoc], found, inOther⟩
      · rintro ⟨i, other, rest, rfl, found, inOther⟩
        cases i with
        | zero => exact .inl ⟨rest, Option.some.inj found ▸ inOther, rfl⟩
        | succ i =>
            exact .inr
              ⟨i, other, rest, by rw [Nat.add_right_comm, Nat.add_assoc], found, inOther⟩

theorem mem_addresses_iff : path ∈ node.addresses ↔ node.Addresses path := by
  induction node generalizing path with
  | unknown =>
      cases path with
      | nil => simp [addresses, addresses_nil_iff]
      | cons entry rest => simp [addresses, addresses_cons_iff, Descriptor.child]
  | value =>
      cases path with
      | nil => simp [addresses, addresses_nil_iff]
      | cons entry rest => simp [addresses, addresses_cons_iff, Descriptor.child]
  | block form children ih =>
      rw [addresses, mem_addressesFrom_iff]
      cases path with
      | nil => simp [addresses_nil_iff]
      | cons entry rest =>
          rw [addresses_cons_iff]
          constructor
          · rintro ⟨i, child, rest', same, found, inChild⟩
            rw [Nat.zero_add] at same
            obtain ⟨rfl, rfl⟩ := List.cons.inj same
            exact ⟨child, Index.entry_eq_ok_iff.mpr found,
              (ih child (List.mem_of_getElem? found)).mp inChild⟩
          · rintro ⟨child, found, addressed⟩
            have found' := Index.entry_eq_ok_iff.mp found
            exact ⟨entry, child, rest, by rw [Nat.zero_add], found',
              (ih child (List.mem_of_getElem? found')).mpr addressed⟩
  | uniform extent child ih =>
      cases path with
      | nil => simp [addresses, addresses_nil_iff]
      | cons entry rest => simp [addresses, addresses_cons_iff, child_uniform_eq_ok_iff, ih]

theorem nodup_addressesFrom (each : ∀ child ∈ children, child.addresses.Nodup) :
    (addressesFrom first children).Nodup := by
  induction children generalizing first with
  | nil => exact List.nodup_nil
  | cons child children ih =>
      rw [addressesFrom, List.nodup_append']
      refine ⟨(each child List.mem_cons_self).map (List.cons_injective),
        ih (fun other inChildren => each other (List.mem_cons_of_mem _ inChildren)), ?_⟩
      rw [List.disjoint_left]
      intro path here there
      obtain ⟨rest, -, rfl⟩ := List.mem_map.mp here
      obtain ⟨i, other, rest', same, -, -⟩ := mem_addressesFrom_iff.mp there
      have sameEntry := (List.cons.inj same).1
      omega

theorem nodup_addresses (node : Descriptor) : node.addresses.Nodup := by
  induction node with
  | unknown => simp [addresses]
  | value => simp [addresses]
  | block form children ih =>
      rw [addresses]
      exact nodup_addressesFrom ih
  | uniform extent child ih =>
      rw [addresses, List.nodup_flatMap]
      refine ⟨fun entry _ => ih.map List.cons_injective, List.nodup_range.imp ?_⟩
      intro entry entry' different
      simp [Function.onFun, List.disjoint_left, different.symm]

end Enumeration

section Number

/-- The number of scalars that paths address. -/
def numScalars (node : Descriptor) : Nat := node.addresses.length

theorem encard_addresses (node : Descriptor) :
    {path | node.Addresses path}.encard = node.numScalars := by
  have listed : {path | node.Addresses path} = (node.addresses.toFinset : Set MultiIndex) := by
    ext path
    rw [Finset.mem_coe, List.mem_toFinset, mem_addresses_iff]
    exact Iff.rfl
  rw [listed, Set.encard_coe_eq_coe_finsetCard, List.toFinset_card_of_nodup node.nodup_addresses]
  rfl

@[simp] theorem numScalars_value : value.numScalars = 1 := by
  rw [numScalars, addresses, List.length_singleton]

@[simp] theorem numScalars_block :
    (block form children).numScalars = (children.map numScalars).sum := by
  have listed : (addressesFrom 0 children).length = (children.map numScalars).sum := by
    generalize 0 = first
    induction children generalizing first with
    | nil => rw [addressesFrom, List.length_nil, List.map_nil, List.sum_nil]
    | cons child children ih =>
        rw [addressesFrom, List.length_append, List.length_map, ih, List.map_cons, List.sum_cons,
          numScalars]
  rw [numScalars, addresses, listed]

@[simp] theorem numScalars_uniform :
    (uniform extent child).numScalars = extent.size * child.numScalars := by
  simp [numScalars, addresses, List.length_flatMap]

end Number

section Unknown

/-- The second container is a part of the first one at some depth, in any number of copies. -/
inductive HasPart : Descriptor → Descriptor → Prop where
  | self (node : Descriptor) : HasPart node node
  | block {form : Form} {children : List Descriptor} {child part : Descriptor}
      (inChildren : child ∈ children) (inner : HasPart child part) :
      HasPart (.block form children) part
  | uniform {extent : Extent} {child part : Descriptor} (inner : HasPart child part) :
      HasPart (.uniform extent child) part

theorem known_iff : node.Known ↔ ¬ node.HasPart .unknown := by
  induction node with
  | unknown => exact iff_of_false not_known_unknown (fun none => none (.self _))
  | value => exact iff_of_true .value nofun
  | block form children ih =>
      rw [known_block_iff]
      constructor
      · intro each hasPart
        cases hasPart with
        | block inChildren inner => exact (ih _ inChildren).mp (each _ inChildren) inner
      · intro none child inChildren
        exact (ih child inChildren).mpr (fun inner => none (.block inChildren inner))
  | uniform extent child ih =>
      rw [known_uniform_iff, ih, not_iff_not]
      constructor
      · exact .uniform
      · intro hasPart
        cases hasPart with
        | uniform inner => exact inner

end Unknown

section Count

/-- No sum and no product of the count exceeds the indices.  The children of a block are
summed up to the first one in which something is unknown, and copies of such a child are
not multiplied. -/
inductive Fits : Descriptor → Prop where
  | unknown : Fits .unknown
  | value : Fits .value
  | block {form : Form} {children : List Descriptor}
      (each : ∀ front child, front ++ [child] <+: children → (∀ other ∈ front, other.Known) →
        Fits child)
      (room : ∀ front, front <+: children → (∀ other ∈ front, other.Known) →
        (front.map numScalars).sum < Index.limit) :
      Fits (.block form children)
  | uniform {extent : Extent} {child : Descriptor} (inner : Fits child)
      (room : child.Known → extent.size * child.numScalars < Index.limit) :
      Fits (.uniform extent child)

/-- The result is the number of scalars, or open if something is unknown. -/
def Counted (node : Descriptor) (result : Option Nat) : Prop :=
  (node.Known ∧ result = some node.numScalars) ∨ (¬ node.Known ∧ result = none)

theorem scalarCountFrom_cons_eq_ok_iff :
    scalarCountFrom total (child :: children) = .ok result ↔
      (child.scalarCount = .ok none ∧ result = none) ∨
      ∃ count, child.scalarCount = .ok (some count) ∧ total + count < Index.limit ∧
        scalarCountFrom (total + count) children = .ok result := by
  rw [scalarCountFrom]
  cases counted : child.scalarCount with
  | error fault => simp
  | ok count? =>
      cases count? with
      | none => simp [eq_comm]
      | some count => simp [bind_eq_ok_iff, Index.add_eq_ok_iff]

theorem scalarCount_uniform_eq_ok_iff :
    (uniform extent child).scalarCount = .ok result ↔
      (child.scalarCount = .ok none ∧ result = none) ∨
      ∃ count, child.scalarCount = .ok (some count) ∧ extent.size * count < Index.limit ∧
        result = some (extent.size * count) := by
  rw [scalarCount]
  cases counted : child.scalarCount with
  | error fault => simp
  | ok count? =>
      cases count? with
      | none => simp [eq_comm]
      | some count =>
          simp only [ok_bind, bind_eq_ok_iff, Index.mul_eq_ok_iff]
          grind

/-- The children of a block fit behind others that have the given number of scalars. -/
structure FitFrom (total : Nat) (children : List Descriptor) : Prop where
  each : ∀ front child, front ++ [child] <+: children → (∀ other ∈ front, other.Known) → child.Fits
  room : ∀ front, front <+: children → (∀ other ∈ front, other.Known) →
    total + (front.map numScalars).sum < Index.limit

theorem fits_block_iff : (block form children).Fits ↔ FitFrom 0 children := by
  constructor
  · intro fits
    cases fits with
    | block each room => exact ⟨each, by simpa using room⟩
  · rintro ⟨each, room⟩
    exact .block each (by simpa using room)

theorem fits_uniform_iff : (uniform extent child).Fits ↔
    child.Fits ∧ (child.Known → extent.size * child.numScalars < Index.limit) :=
  ⟨fun | .uniform inner room => ⟨inner, room⟩, fun ⟨inner, room⟩ => .uniform inner room⟩

theorem fitFrom_nil_iff : FitFrom total [] ↔ total < Index.limit := by
  constructor
  · intro fit
    simpa using fit.room [] List.nil_prefix nofun
  · intro room
    refine ⟨fun front child isPrefix => ?_, fun front isPrefix _ => ?_⟩
    · exact absurd (List.prefix_nil.mp isPrefix) (by simp)
    · simpa [List.prefix_nil.mp isPrefix] using room

theorem fitFrom_cons_iff : FitFrom total (child :: children) ↔
    total < Index.limit ∧ child.Fits ∧
      (child.Known → FitFrom (total + child.numScalars) children) := by
  constructor
  · rintro ⟨each, room⟩
    refine ⟨by simpa using room [] List.nil_prefix nofun, each [] child (by simp) nofun, ?_⟩
    intro known
    constructor
    · intro front other isPrefix knownFront
      exact each (child :: front) other (List.cons_prefix_cons.mpr ⟨rfl, isPrefix⟩)
        (List.forall_mem_cons.mpr ⟨known, knownFront⟩)
    · intro front isPrefix knownFront
      have sum := room (child :: front) (List.cons_prefix_cons.mpr ⟨rfl, isPrefix⟩)
        (List.forall_mem_cons.mpr ⟨known, knownFront⟩)
      rwa [List.map_cons, List.sum_cons, ← Nat.add_assoc] at sum
  · rintro ⟨room, fits, behind⟩
    constructor
    · intro front other isPrefix knownFront
      cases front with
      | nil =>
          obtain ⟨rfl, -⟩ := List.cons_prefix_cons.mp isPrefix
          exact fits
      | cons first front =>
          obtain ⟨rfl, inChildren⟩ := List.cons_prefix_cons.mp isPrefix
          obtain ⟨known, knownFront⟩ := List.forall_mem_cons.mp knownFront
          exact (behind known).each front other inChildren knownFront
    · intro front isPrefix knownFront
      cases front with
      | nil => simpa using room
      | cons first front =>
          obtain ⟨rfl, inChildren⟩ := List.cons_prefix_cons.mp isPrefix
          obtain ⟨known, knownFront⟩ := List.forall_mem_cons.mp knownFront
          rw [List.map_cons, List.sum_cons, ← Nat.add_assoc]
          exact (behind known).room front inChildren knownFront

theorem scalarCountFrom_eq_ok_iff (total : Nat) (each : ∀ child ∈ children, ∀ result,
    child.scalarCount = .ok result ↔ child.Fits ∧ child.Counted result) :
    total < Index.limit ∧ scalarCountFrom total children = .ok result ↔
      FitFrom total children ∧
        (((∀ child ∈ children, child.Known) ∧
            result = some (total + (children.map numScalars).sum)) ∨
          ((¬ ∀ child ∈ children, child.Known) ∧ result = none)) := by
  induction children generalizing total with
  | nil => simp [scalarCountFrom, fitFrom_nil_iff, eq_comm]
  | cons child children ih =>
      obtain ⟨here, behind⟩ := List.forall_mem_cons.mp each
      rw [scalarCountFrom_cons_eq_ok_iff, fitFrom_cons_iff]
      simp only [here]
      by_cases known : child.Known
      · simp [Counted, known, ih _ behind, and_assoc, Nat.add_assoc]
      · simp [Counted, known, and_assoc]

theorem scalarCount_eq_ok_iff (node : Descriptor) : ∀ result,
    node.scalarCount = .ok result ↔ node.Fits ∧ node.Counted result := by
  induction node with
  | unknown => simp [scalarCount, Fits.unknown, Counted, not_known_unknown, eq_comm]
  | value => simp [scalarCount, Fits.value, Counted, Known.value, eq_comm]
  | block form children ih =>
      intro result
      rw [scalarCount, fits_block_iff, Counted, known_block_iff, numScalars_block]
      have room : 0 < Index.limit := by decide
      simpa [room] using scalarCountFrom_eq_ok_iff 0 ih
  | uniform extent child ih =>
      intro result
      rw [scalarCount_uniform_eq_ok_iff, fits_uniform_iff, Counted, known_uniform_iff,
        numScalars_uniform]
      simp only [ih]
      by_cases known : child.Known
      · simp [Counted, known, and_assoc]
      · simp [Counted, known]

theorem fault_of_scalarCountFrom {fault : Fault}
    (each : ∀ child ∈ children, ∀ fault, child.scalarCount = .error fault → fault = .arithmetic)
    (failed : scalarCountFrom total children = .error fault) : fault = .arithmetic := by
  induction children generalizing total with
  | nil => simp [scalarCountFrom] at failed
  | cons child children ih =>
      obtain ⟨here, behind⟩ := List.forall_mem_cons.mp each
      rw [scalarCountFrom] at failed
      cases counted : child.scalarCount with
      | error fault' =>
          rw [counted] at failed
          exact Except.error.inj failed ▸ here fault' counted
      | ok count? =>
          rw [counted] at failed
          cases count? with
          | none => cases failed
          | some count =>
              simp only [ok_bind, Index.add] at failed
              split at failed
              · exact ih behind failed
              · exact (Except.error.inj failed).symm

/-- Only an overflow makes the count fail. -/
theorem fault_of_scalarCount (node : Descriptor) : ∀ fault,
    node.scalarCount = .error fault → fault = .arithmetic := by
  induction node with
  | unknown => simp [scalarCount]
  | value => simp [scalarCount]
  | block form children ih =>
      intro fault failed
      rw [scalarCount] at failed
      exact fault_of_scalarCountFrom ih failed
  | uniform extent child ih =>
      intro fault failed
      rw [scalarCount] at failed
      cases counted : child.scalarCount with
      | error fault' =>
          rw [counted] at failed
          exact Except.error.inj failed ▸ ih fault' counted
      | ok count? =>
          rw [counted] at failed
          cases count? with
          | none => cases failed
          | some count =>
              simp only [ok_bind, Index.mul] at failed
              split at failed
              · cases failed
              · exact (Except.error.inj failed).symm

end Count

/-- The count returns a result exactly if no sum and no product overflows.  It is open if and
only if an unknown part occurs anywhere, and otherwise it is the number of the paths that
address a scalar. -/
theorem scalarCount_counts_addresses (node : Descriptor) :
    (node.Fits ↔ ∃ result, node.scalarCount = .ok result) ∧
    (¬ node.Fits → node.scalarCount = .error .arithmetic) ∧
    (node.Fits → (node.scalarCount = .ok none ↔ node.HasPart .unknown) ∧
      (¬ node.HasPart .unknown → ∃ count, node.scalarCount = .ok (some count) ∧
        {path | node.Addresses path}.encard = count)) := by
  have outcome := scalarCount_eq_ok_iff node
  have returns : node.Fits ↔ ∃ result, node.scalarCount = .ok result := by
    constructor
    · intro fits
      by_cases known : node.Known
      · exact ⟨_, (outcome _).mpr ⟨fits, .inl ⟨known, rfl⟩⟩⟩
      · exact ⟨_, (outcome _).mpr ⟨fits, .inr ⟨known, rfl⟩⟩⟩
    · rintro ⟨result, counted⟩
      exact ((outcome result).mp counted).1
  refine ⟨returns, fun overflow => ?_, fun fits => ⟨?_, fun none => ?_⟩⟩
  · cases counted : node.scalarCount with
    | error fault => rw [fault_of_scalarCount node fault counted]
    | ok result => exact absurd (returns.mpr ⟨result, counted⟩) overflow
  · rw [outcome, Counted, ← not_iff_not, ← known_iff]
    simp [fits]
  · exact ⟨node.numScalars, (outcome _).mpr ⟨fits, .inl ⟨known_iff.mpr none, rfl⟩⟩,
      node.encard_addresses⟩


theorem scalarCount_counts_addresses_beside_empty_parts :
    {path | (block .tuple [uniformArray 3 (block .array [.value, .value]), flatVector 0,
      block .vector []]).Addresses path}.encard = 6 ∧
    (block .tuple [.value, uniformVector 0 .unknown]).HasPart .unknown ∧
    (block .tuple [.value, uniformVector 0 .unknown]).scalarCount = .ok none ∧
    ¬ (uniformArray 9223372036854775808 (flatArray 2)).Fits ∧
    (uniformArray 9223372036854775808 (flatArray 2)).scalarCount = .error .arithmetic := by
  have overflow : ¬ (uniformArray 9223372036854775808 (flatArray 2)).Fits := by
    intro fits
    have room := (fits_uniform_iff.mp fits).2 (.uniform .value)
    rw [flatArray, uniformArray, numScalars_uniform, numScalars_value] at room
    exact absurd room (by decide)
  have hasUnknown : (block .tuple [.value, uniformVector 0 .unknown]).HasPart .unknown :=
    .block (List.mem_cons_of_mem _ List.mem_cons_self) (.uniform (.self _))
  refine ⟨?_, hasUnknown, ?_, overflow, (scalarCount_counts_addresses _).2.1 overflow⟩
  · obtain ⟨returns, -, counts⟩ := scalarCount_counts_addresses
      (block .tuple [uniformArray 3 (block .array [.value, .value]), flatVector 0,
        block .vector []])
    have known : ¬ HasPart (block .tuple [uniformArray 3 (block .array [.value, .value]),
        flatVector 0, block .vector []]) .unknown := by
      rw [← known_iff]
      simp [uniformArray, flatVector, uniformVector, known_block_iff, known_uniform_iff,
        Known.value]
    obtain ⟨count, counted, number⟩ := (counts (returns.mpr ⟨some 6, rfl⟩)).2 known
    obtain rfl : 6 = count := Option.some.inj (Except.ok.inj counted)
    exact number
  · obtain ⟨returns, -, counts⟩ := scalarCount_counts_addresses
      (block .tuple [.value, uniformVector 0 .unknown])
    exact (counts (returns.mpr ⟨none, rfl⟩)).1.mpr hasUnknown

end DofNumbering.Descriptor
