import DofNumbering.Descriptor
import DofNumbering.MultiIndex
import DofNumbering.Proofs.Result
import Mathlib.Algebra.BigOperators.Group.List.Basic
import Mathlib.Data.List.Fold

namespace DofNumbering

/-! Container descriptions along paths and as a whole.

A container mirrors a rule for sizes if every path that the rule admits leads to a
node of the size that the rule says.  Where a part is unknown, nothing is said about
the paths through it, and the number of scalars is open.
-/

/-- Every entry of the path is below the size after the entries before. -/
def MultiIndex.WithinSizes (size : List Nat → Except Fault Nat) (path : MultiIndex) : Prop :=
  ∀ stem entry, stem ++ [entry] <+: path → ∃ bound, size stem = .ok bound ∧ entry < bound

theorem MultiIndex.withinSizes_nil {size : List Nat → Except Fault Nat} : WithinSizes size [] :=
  fun stem entry isPrefix =>
    absurd (List.prefix_nil.mp isPrefix) (List.append_ne_nil_of_right_ne_nil stem (by simp))

theorem MultiIndex.withinSizes_cons_iff {size : List Nat → Except Fault Nat} {entry : Nat}
    {rest : MultiIndex} : WithinSizes size (entry :: rest) ↔
      (∃ bound, size [] = .ok bound ∧ entry < bound) ∧
        WithinSizes (fun stem => size (entry :: stem)) rest := by
  constructor
  · intro within
    exact ⟨within [] entry ⟨rest, rfl⟩, fun stem entry' isPrefix =>
      within (entry :: stem) entry' (List.cons_prefix_cons.mpr ⟨rfl, isPrefix⟩)⟩
  · rintro ⟨first, within⟩ stem entry' isPrefix
    cases stem with
    | nil =>
        obtain ⟨rfl, -⟩ := List.cons_prefix_cons.mp isPrefix
        exact first
    | cons entry'' stem =>
        obtain ⟨rfl, inRest⟩ := List.cons_prefix_cons.mp isPrefix
        exact within stem entry' inRest

namespace Descriptor

/-- What holds of a block as soon as it holds of all its children holds of every container. -/
@[elab_as_elim, induction_eliminator]
theorem induction {motive : Descriptor → Prop} (unknown : motive .unknown) (value : motive .value)
    (block : ∀ form children, (∀ child ∈ children, motive child) → motive (.block form children))
    (uniform : ∀ extent child, motive child → motive (.uniform extent child)) :
    (node : Descriptor) → motive node
  | .unknown => unknown
  | .value => value
  | .block form children =>
      block form children (fun child _ => induction unknown value block uniform child)
  | .uniform extent child => uniform extent child (induction unknown value block uniform child)

/-- No part of the container is unknown. -/
inductive Known : Descriptor → Prop where
  | value : Known .value
  | block {form : Form} {children : List Descriptor} (each : ∀ child ∈ children, Known child) :
      Known (.block form children)
  | uniform {extent : Extent} {child : Descriptor} (inner : Known child) :
      Known (.uniform extent child)

/-- The nodes at all beginnings of a path are not unknown. -/
def KnownAlong (node : Descriptor) (path : MultiIndex) : Prop :=
  ∀ stem, stem <+: path → node.descendant stem ≠ .ok .unknown

/-- Every admitted path through parts that are not unknown leads to a node of the right
size, which is a value exactly at the end of an index. -/
def Mirrors (node : Descriptor) (size : List Nat → Except Fault Nat) (isIndex : MultiIndex → Prop) :
    Prop :=
  ∀ path, MultiIndex.WithinSizes size path → node.KnownAlong path →
    ∃ reached, node.descendant path = .ok reached ∧ size path = .ok reached.size ∧
      (reached = .value ↔ isIndex path)

variable {node child : Descriptor} {children : List Descriptor} {form : Form} {extent : Extent}
  {size : List Nat → Except Fault Nat} {isIndex : MultiIndex → Prop} {entry : Nat}
  {rest : MultiIndex}

theorem known_block_iff : (block form children).Known ↔ ∀ child ∈ children, child.Known :=
  ⟨fun | .block each => each, .block⟩

theorem known_uniform_iff : (uniform extent child).Known ↔ child.Known :=
  ⟨fun | .uniform inner => inner, .uniform⟩

theorem not_known_unknown : ¬ Known .unknown := nofun

theorem known_child (known : node.Known) (found : node.child entry = .ok child) : child.Known := by
  cases known with
  | value => exact absurd found nofun
  | block each => exact each child (List.mem_of_getElem? (Index.entry_eq_ok_iff.mp found))
  | @uniform extent inner known =>
      change (if entry < extent.size then Except.ok inner else _) = _ at found
      split at found
      · obtain rfl := Except.ok.inj found
        exact known
      · contradiction

theorem known_descendant {reached : Descriptor} {path : MultiIndex} (known : node.Known)
    (found : node.descendant path = .ok reached) : reached.Known := by
  induction path generalizing node with
  | nil =>
      obtain rfl := Except.ok.inj found
      exact known
  | cons entry rest ih =>
      obtain ⟨child, foundChild, foundRest⟩ := bind_eq_ok_iff.mp found
      exact ih (known_child known foundChild) foundRest

theorem Known.along (known : node.Known) (path : MultiIndex) : node.KnownAlong path :=
  fun _ _ found => not_known_unknown (known_descendant known found)

section Mirrors

theorem descendant_cons (found : node.child entry = .ok child) :
    node.descendant (entry :: rest) = child.descendant rest := by
  rw [descendant, found, ok_bind]

theorem KnownAlong.tail (known : node.KnownAlong (entry :: rest))
    (found : node.child entry = .ok child) : child.KnownAlong rest := by
  intro stem isPrefix
  rw [← descendant_cons found]
  exact known (entry :: stem) (List.cons_prefix_cons.mpr ⟨rfl, isPrefix⟩)

theorem KnownAlong.cons (known : node ≠ .unknown) (found : node.child entry = .ok child)
    (inChild : child.KnownAlong rest) : node.KnownAlong (entry :: rest) := by
  intro stem isPrefix
  cases stem with
  | nil => exact fun isUnknown => known (Except.ok.inj isUnknown)
  | cons entry' stem =>
      obtain ⟨rfl, inRest⟩ := List.cons_prefix_cons.mp isPrefix
      rw [descendant_cons found]
      exact inChild stem inRest

theorem Mirrors.congr {size' : List Nat → Except Fault Nat} {isIndex' : MultiIndex → Prop}
    (mirrors : node.Mirrors size isIndex) (sizes : ∀ stem, size' stem = size stem)
    (indices : ∀ index, isIndex' index ↔ isIndex index) : node.Mirrors size' isIndex' := by
  have sameSizes : size' = size := funext sizes
  have sameIndices : isIndex' = isIndex := funext (fun index => propext (indices index))
  rwa [sameSizes, sameIndices]

theorem mirrors_unknown : unknown.Mirrors size isIndex :=
  fun _ _ known => absurd rfl (known [] List.nil_prefix)

theorem mirrors_value (sized : size [] = .ok 0) (whole : isIndex []) : value.Mirrors size isIndex := by
  intro path within _
  cases path with
  | nil => exact ⟨value, rfl, sized, iff_of_true rfl whole⟩
  | cons entry rest =>
      obtain ⟨⟨bound, sized', below⟩, -⟩ := MultiIndex.withinSizes_cons_iff.mp within
      obtain rfl := Except.ok.inj (sized.symm.trans sized')
      exact absurd below (Nat.not_lt_zero entry)

theorem mirrors_of_children (sized : size [] = .ok node.size) (notValue : node ≠ .value)
    (notIndex : ¬ isIndex [])
    (each : ∀ entry < node.size, ∃ child, node.child entry = .ok child ∧
      child.Mirrors (fun stem => size (entry :: stem)) (fun rest => isIndex (entry :: rest))) :
    node.Mirrors size isIndex := by
  intro path within known
  cases path with
  | nil => exact ⟨node, rfl, sized, iff_of_false notValue notIndex⟩
  | cons entry rest =>
      obtain ⟨⟨bound, sized', below⟩, withinRest⟩ := MultiIndex.withinSizes_cons_iff.mp within
      obtain rfl := Except.ok.inj (sized.symm.trans sized')
      obtain ⟨child, found, mirrors⟩ := each entry below
      rw [descendant_cons found]
      exact mirrors rest withinRest (known.tail found)

theorem mirrors_uniform (sized : size [] = .ok extent.size) (notIndex : ¬ isIndex [])
    (each : ∀ entry < extent.size,
      child.Mirrors (fun stem => size (entry :: stem)) (fun rest => isIndex (entry :: rest))) :
    (uniform extent child).Mirrors size isIndex :=
  mirrors_of_children sized nofun notIndex
    (fun entry below => ⟨child, if_pos below, each entry below⟩)

theorem mirrors_scalars (sized : size [] = .ok extent.size)
    (ends : ∀ entry < extent.size, size [entry] = .ok 0) (notIndex : ¬ isIndex [])
    (indices : ∀ entry < extent.size, isIndex [entry]) :
    (uniform extent value).Mirrors size isIndex :=
  mirrors_uniform sized notIndex
    (fun entry below => mirrors_value (ends entry below) (indices entry below))

end Mirrors

section Measures

/-- The container has the given number of scalars and the given depth, unless something is
unknown in it. -/
structure Measures (node : Descriptor) (total length : Nat) : Prop where
  count : node.Known → node.scalarCount = .ok (some total)
  depth : node.Known → node.depth = length
  isOpen : ¬ node.Known → node.scalarCount = .ok none

variable {total length : Nat}

theorem measures_unknown : unknown.Measures total length where
  count known := absurd known not_known_unknown
  depth known := absurd known not_known_unknown
  isOpen _ := by rw [scalarCount]

theorem measures_value : value.Measures 1 0 where
  count _ := by rw [scalarCount]
  depth _ := by rw [depth]
  isOpen notKnown := absurd .value notKnown

theorem measures_uniform (inner : child.Measures total length)
    (room : extent.size * total < Index.limit) :
    (uniform extent child).Measures (extent.size * total) (1 + length) where
  count known := by
    have product : Index.mul extent.size total = .ok (extent.size * total) := if_pos room
    rw [scalarCount, inner.count (known_uniform_iff.mp known), ok_bind]
    simp only [product, ok_bind]
  depth known := by rw [depth, inner.depth (known_uniform_iff.mp known)]
  isOpen notKnown := by
    rw [scalarCount, inner.isOpen (fun known => notKnown (.uniform known)), ok_bind]

variable {ι : Type} {items : List ι} {part : ι → Descriptor} {number extension : ι → Nat}

theorem scalarCountFrom_of_known
    (each : ∀ item ∈ items, (part item).scalarCount = .ok (some (number item)))
    (room : total + (items.map number).sum < Index.limit) :
    scalarCountFrom total (items.map part) = .ok (some (total + (items.map number).sum)) := by
  induction items generalizing total with
  | nil => rw [List.map_nil, scalarCountFrom, List.map_nil, List.sum_nil, Nat.add_zero]
  | cons item others ih =>
      rw [List.map_cons, List.sum_cons] at room
      have sum : Index.add total (number item) = .ok (total + number item) :=
        Index.add_eq_ok_iff.mpr ⟨by omega, rfl⟩
      rw [List.map_cons, List.map_cons, List.sum_cons, scalarCountFrom, each item (by simp), ok_bind]
      simp only [sum, ok_bind]
      rw [ih (fun other inOthers => each other (by simp [inOthers])) (by omega), Nat.add_assoc]

theorem scalarCountFrom_of_not_known
    (each : ∀ item ∈ items, (part item).Measures (number item) (extension item))
    (room : total + (items.map number).sum < Index.limit)
    (notKnown : ¬ ∀ item ∈ items, (part item).Known) :
    scalarCountFrom total (items.map part) = .ok none := by
  induction items generalizing total with
  | nil => exact absurd nofun notKnown
  | cons item others ih =>
      rw [List.map_cons, List.sum_cons] at room
      rw [List.map_cons, scalarCountFrom]
      by_cases known : (part item).Known
      · have sum : Index.add total (number item) = .ok (total + number item) :=
          Index.add_eq_ok_iff.mpr ⟨by omega, rfl⟩
        rw [(each item (by simp)).count known, ok_bind]
        simp only [sum, ok_bind]
        refine ih (fun other inOthers => each other (by simp [inOthers])) (by omega) (fun all => ?_)
        exact notKnown (List.forall_mem_cons.mpr ⟨known, all⟩)
      · rw [(each item (by simp)).isOpen known, ok_bind]

theorem depthOfAll_eq (each : ∀ item ∈ items, (part item).depth = extension item) :
    depthOfAll (items.map part) = (items.map extension).foldl max 0 := by
  rw [List.foldl_eq_foldr]
  induction items with
  | nil => rw [List.map_nil, depthOfAll, List.map_nil, List.foldr_nil]
  | cons item others ih =>
      rw [List.map_cons, depthOfAll, List.map_cons, List.foldr_cons, each item (by simp),
        ih (fun other inOthers => each other (by simp [inOthers]))]

theorem measures_block
    (each : ∀ item ∈ items, (part item).Measures (number item) (extension item))
    (room : (items.map number).sum < Index.limit) :
    (block form (items.map part)).Measures (items.map number).sum
      (1 + (items.map extension).foldl max 0) := by
  have knownIff : (block form (items.map part)).Known ↔ ∀ item ∈ items, (part item).Known := by
    rw [known_block_iff, List.forall_mem_map]
  constructor
  · intro known
    rw [scalarCount, scalarCountFrom_of_known
      (fun item inItems => (each item inItems).count (knownIff.mp known item inItems)) (by omega),
      Nat.zero_add]
  · intro known
    rw [depth, depthOfAll_eq
      (fun item inItems => (each item inItems).depth (knownIff.mp known item inItems))]
  · intro notKnown
    rw [scalarCount]
    exact scalarCountFrom_of_not_known each (by omega) (fun all => notKnown (knownIff.mpr all))

end Measures

mutual

/-- Every container has its own type. -/
theorem sameType_refl : (node : Descriptor) → node.sameType node = true
  | .unknown => by rw [sameType]
  | .value => by rw [sameType]
  | .block .tuple children => by simp [sameType, sameTypes_refl children]
  | .block .array children => by simp [sameType, sameFirstType_refl children]
  | .block .vector children => by simp [sameType, sameFirstType_refl children]
  | .uniform (.static size) child => by simp [sameType, sameType_refl child]
  | .uniform (.dynamic size) child => by simp [sameType, sameType_refl child]

theorem sameTypes_refl : (children : List Descriptor) → sameTypes children children = true
  | [] => by rw [sameTypes]; nofun
  | child :: rest => by simp [sameTypes, sameType_refl child, sameTypes_refl rest]

theorem sameFirstType_refl : (children : List Descriptor) → sameFirstType children children = true
  | [] => by rw [sameFirstType]; nofun
  | child :: rest => by simp [sameFirstType, sameType_refl child]

end

theorem ofChildren_eq_block (children : List Descriptor) :
    ∃ form, ofChildren children = .block form children := by
  unfold ofChildren
  split
  · exact ⟨.array, rfl⟩
  · exact ⟨.tuple, rfl⟩

theorem ofChildren_replicate (count : Nat) (child : Descriptor) :
    ofChildren (List.replicate count child) = .block .array (List.replicate count child) := by
  have alike : homogeneous (List.replicate count child) = true := by
    cases count with
    | zero => rfl
    | succ count => simp [List.replicate_succ, homogeneous, sameType_refl]
  rw [ofChildren, if_pos alike]

end Descriptor

end DofNumbering
