import DofNumbering.Proofs.Descriptor.Addresses

namespace DofNumbering

/-! Identical children, stored once or as that many copies.

The expansion of a container stores every child of a uniform block on its own.  Wherever there
is at least one child, the two cannot be told apart: the same paths lead to the same places,
and the depth, the number of scalars and its overflow are the same.  Zero copies of a child are
different, as the depth and the number of scalars look into a child that nothing leads to.
-/

/-- The form of a block that stores as many children one by one. -/
def Extent.form : Extent → Form
  | .static _ => .array
  | .dynamic _ => .vector

namespace Descriptor

variable {node child part : Descriptor} {children : List Descriptor} {form : Form}
  {extent : Extent} {entry total count : Nat} {path : List Nat}

section Expansion

mutual

/-- The container with a child of its own for every place of a uniform block, at all depths. -/
def expanded : Descriptor → Descriptor
  | .unknown => .unknown
  | .value => .value
  | .block form children => .block form (expandedAll children)
  | .uniform extent child => .block extent.form (List.replicate extent.size child.expanded)

def expandedAll : List Descriptor → List Descriptor
  | [] => []
  | child :: rest => child.expanded :: expandedAll rest

end

/-- Every uniform block has at least one child, at all depths. -/
inductive Filled : Descriptor → Prop where
  | unknown : Filled .unknown
  | value : Filled .value
  | block {form : Form} {children : List Descriptor} (each : ∀ child ∈ children, Filled child) :
      Filled (.block form children)
  | uniform {extent : Extent} {child : Descriptor} (nonempty : 0 < extent.size)
      (inner : Filled child) : Filled (.uniform extent child)

theorem expandedAll_eq_map : expandedAll children = children.map expanded := by
  induction children with
  | nil => rw [expandedAll, List.map_nil]
  | cons child children ih => rw [expandedAll, List.map_cons, ih]

theorem expanded_block : (block form children).expanded = block form (children.map expanded) := by
  rw [expanded, expandedAll_eq_map]

theorem isValue_expanded : node.expanded.isValue = node.isValue := by
  cases node <;> simp [expanded, isValue]

theorem Filled.at_child (filled : node.Filled) (found : node.child entry = .ok child) :
    child.Filled := by
  cases filled with
  | unknown => cases found
  | value => cases found
  | block each => exact each child (List.mem_of_getElem? (Index.entry_eq_ok_iff.mp found))
  | uniform _ inner =>
      obtain ⟨-, rfl⟩ := child_uniform_eq_ok_iff.mp found
      exact inner

end Expansion

section Paths

theorem child_eq_ok_iff : node.child entry = .ok child ↔ node.children[entry]? = some child := by
  cases node with
  | unknown => simp [Descriptor.child, Descriptor.children]
  | value => simp [Descriptor.child, Descriptor.children]
  | block form children => exact Index.entry_eq_ok_iff
  | uniform extent inner =>
      rw [child_uniform_eq_ok_iff, Descriptor.children, List.getElem?_replicate]
      split <;> simp_all [eq_comm]

theorem children_expanded : node.expanded.children = node.children.map expanded := by
  cases node with
  | unknown => rfl
  | value => rfl
  | block form children => rw [expanded_block, Descriptor.children, Descriptor.children]
  | uniform extent child =>
      rw [expanded, Descriptor.children, Descriptor.children, List.map_replicate]

theorem child_expanded_eq_ok_iff : node.expanded.child entry = .ok part ↔
    ∃ child, node.child entry = .ok child ∧ child.expanded = part := by
  simp only [child_eq_ok_iff, children_expanded, List.getElem?_map, Option.map_eq_some_iff]

/-- A path leads from the expansion to the expansion of the node to which it leads. -/
theorem descendant_expanded_eq_ok_iff : node.expanded.descendant path = .ok part ↔
    ∃ reached, node.descendant path = .ok reached ∧ reached.expanded = part := by
  induction path generalizing node with
  | nil => simp [descendant]
  | cons entry rest ih =>
      simp only [descendant, bind_eq_ok_iff, child_expanded_eq_ok_iff]
      constructor
      · rintro ⟨_, ⟨child, found, rfl⟩, foundRest⟩
        obtain ⟨reached, reachedRest, same⟩ := ih.mp foundRest
        exact ⟨reached, ⟨child, found, reachedRest⟩, same⟩
      · rintro ⟨reached, ⟨child, found, reachedRest⟩, same⟩
        exact ⟨child.expanded, ⟨child, found, rfl⟩, ih.mpr ⟨reached, reachedRest, same⟩⟩

theorem Filled.descendant (filled : node.Filled) (found : node.descendant path = .ok part) :
    part.Filled := by
  induction path generalizing node with
  | nil => exact Except.ok.inj found ▸ filled
  | cons entry rest ih =>
      obtain ⟨child, foundChild, foundRest⟩ := bind_eq_ok_iff.mp found
      exact ih (filled.at_child foundChild) foundRest

end Paths

section Measures

theorem depthOfAll_map {change : Descriptor → Descriptor}
    (each : ∀ child ∈ children, (change child).depth = child.depth) :
    depthOfAll (children.map change) = depthOfAll children := by
  induction children with
  | nil => rfl
  | cons child children ih =>
      obtain ⟨here, behind⟩ := List.forall_mem_cons.mp each
      rw [List.map_cons, depthOfAll, depthOfAll, here, ih behind]

theorem depthOfAll_replicate (nonempty : 0 < count) :
    depthOfAll (List.replicate count child) = child.depth := by
  induction count with
  | zero => exact absurd nonempty (Nat.lt_irrefl 0)
  | succ count ih =>
      rw [List.replicate_succ, depthOfAll]
      cases count with
      | zero => rw [List.replicate_zero, depthOfAll, Nat.max_zero]
      | succ count => rw [ih count.succ_pos, Nat.max_self]

theorem scalarCountFrom_map {change : Descriptor → Descriptor}
    (each : ∀ child ∈ children, (change child).scalarCount = child.scalarCount) :
    scalarCountFrom total (children.map change) = scalarCountFrom total children := by
  induction children generalizing total with
  | nil => rfl
  | cons child children ih =>
      obtain ⟨here, behind⟩ := List.forall_mem_cons.mp each
      rw [List.map_cons, scalarCountFrom, scalarCountFrom, here]
      simp only [ih behind]

/-- The sum over copies overflows on its way exactly if the product does. -/
theorem scalarCountFrom_replicate {number : Nat} (counted : child.scalarCount = .ok (some number))
    (room : total < Index.limit) :
    scalarCountFrom total (List.replicate count child) =
      if total + count * number < Index.limit then .ok (some (total + count * number))
      else .error .arithmetic := by
  induction count generalizing total with
  | zero => simp [scalarCountFrom, room]
  | succ count ih =>
      have product : total + (count + 1) * number = total + number + count * number := by
        rw [Nat.succ_mul, Nat.add_comm (count * number), Nat.add_assoc]
      rw [List.replicate_succ, scalarCountFrom, counted, ok_bind, product]
      by_cases fits : total + number < Index.limit
      · have sum : Index.add total number = .ok (total + number) := if_pos fits
        simp only [sum, ok_bind]
        exact ih fits
      · have sum : Index.add total number = .error .arithmetic := if_neg fits
        have overflow : ¬ total + number + count * number < Index.limit :=
          fun below => fits (Nat.lt_of_le_of_lt (Nat.le_add_right _ _) below)
        simp only [sum, error_bind, if_neg overflow]

theorem scalarCountFrom_replicate_eq_uniform (nonempty : 0 < extent.size) :
    scalarCountFrom 0 (List.replicate extent.size child) = (uniform extent child).scalarCount := by
  obtain ⟨others, size⟩ := Nat.exists_eq_succ_of_ne_zero nonempty.ne'
  cases counted : child.scalarCount with
  | error fault =>
      rw [size, List.replicate_succ, scalarCountFrom, scalarCount, counted, error_bind, error_bind]
  | ok count? =>
      cases count? with
      | none =>
          rw [size, List.replicate_succ, scalarCountFrom, scalarCount, counted, ok_bind, ok_bind]
      | some number =>
          rw [scalarCountFrom_replicate counted (by decide), scalarCount, counted, ok_bind]
          by_cases fits : extent.size * number < Index.limit
          · have product : Index.mul extent.size number = .ok (extent.size * number) := if_pos fits
            simp only [product, ok_bind, Nat.zero_add, if_pos fits]
          · have product : Index.mul extent.size number = .error .arithmetic := if_neg fits
            simp only [product, error_bind, Nat.zero_add, if_neg fits]

end Measures

/-- The expansion of a container looks like the container. -/
structure LooksExpanded (node : Descriptor) : Prop where
  size : node.expanded.size = node.size
  children : node.expanded.children = node.children.map expanded
  isLeaf : node.expanded.isLeaf = node.isLeaf
  isFlat : node.expanded.isFlat = node.isFlat
  depth : node.expanded.depth = node.depth
  scalarCount : node.expanded.scalarCount = node.scalarCount

theorem size_expanded : node.expanded.size = node.size := by
  cases node <;> simp [expanded, expandedAll_eq_map, Descriptor.size]

theorem isLeaf_expanded : node.expanded.isLeaf = node.isLeaf := by
  cases node <;> simp [expanded, Descriptor.isLeaf]

theorem Filled.isFlat_expanded (filled : node.Filled) : node.expanded.isFlat = node.isFlat := by
  cases filled with
  | unknown => rfl
  | value => rfl
  | block each => simp [expanded_block, Descriptor.isFlat, Function.comp_def, isValue_expanded]
  | uniform nonempty inner =>
      simp [expanded, Descriptor.isFlat, isValue_expanded, nonempty.ne']

theorem Filled.depth_expanded (filled : node.Filled) : node.expanded.depth = node.depth := by
  induction filled with
  | unknown => rfl
  | value => rfl
  | block _ ih => rw [expanded_block, Descriptor.depth, Descriptor.depth, depthOfAll_map ih]
  | uniform nonempty _ ih =>
      rw [expanded, Descriptor.depth, Descriptor.depth, depthOfAll_replicate nonempty, ih]

theorem Filled.scalarCount_expanded (filled : node.Filled) :
    node.expanded.scalarCount = node.scalarCount := by
  induction filled with
  | unknown => rfl
  | value => rfl
  | block _ ih =>
      rw [expanded_block, Descriptor.scalarCount, Descriptor.scalarCount, scalarCountFrom_map ih]
  | @uniform extent child nonempty _ ih =>
      rw [expanded, Descriptor.scalarCount, scalarCountFrom_replicate_eq_uniform nonempty,
        Descriptor.scalarCount, Descriptor.scalarCount, ih]

theorem Filled.looksExpanded (filled : node.Filled) : node.LooksExpanded where
  size := size_expanded
  children := children_expanded
  isLeaf := isLeaf_expanded
  isFlat := filled.isFlat_expanded
  depth := filled.depth_expanded
  scalarCount := filled.scalarCount_expanded

/-- The same paths lead into a container and into its expansion, and at their ends there are a
node and its expansion, which look alike. -/
theorem expansion_looks_alike (node : Descriptor) (filled : node.Filled) (path : List Nat) :
    ((∃ reached, node.descendant path = .ok reached) ↔
      ∃ reached, node.expanded.descendant path = .ok reached) ∧
    ∀ reached, node.descendant path = .ok reached →
      node.expanded.descendant path = .ok reached.expanded ∧ reached.LooksExpanded := by
  refine ⟨⟨?_, ?_⟩, fun reached found => ⟨?_, (filled.descendant found).looksExpanded⟩⟩
  · rintro ⟨reached, found⟩
    exact ⟨reached.expanded, descendant_expanded_eq_ok_iff.mpr ⟨reached, found, rfl⟩⟩
  · rintro ⟨part, found⟩
    obtain ⟨reached, foundNode, -⟩ := descendant_expanded_eq_ok_iff.mp found
    exact ⟨reached, foundNode⟩
  · exact descendant_expanded_eq_ok_iff.mpr ⟨reached, found, rfl⟩

theorem expansion_looks_alike_in_pairs :
    (uniformArray 2 (block .tuple [flatVector 3, .unknown])).expanded.descendant [1, 0] =
      .ok (block .vector [.value, .value, .value]) ∧
    (¬ ∃ reached, (uniformArray 2 (block .tuple [flatVector 3, .unknown])).expanded.descendant
      [2, 0] = .ok reached) ∧
    (uniformArray 2 (block .tuple [flatVector 3, .unknown])).expanded.scalarCount = .ok none ∧
    (uniformVector 2 (flatArray 9223372036854775808)).expanded.scalarCount =
      .error .arithmetic := by
  have flat : (flatVector 3).Filled := .uniform (by decide) .value
  have filled : (uniformArray 2 (block .tuple [flatVector 3, .unknown])).Filled :=
    .uniform (by decide) (.block (by simp [flat, Filled.unknown]))
  have filledLarge : (uniformVector 2 (flatArray 9223372036854775808)).Filled :=
    .uniform (by decide) (.uniform (by decide) .value)
  refine ⟨?_, ?_, ?_, ?_⟩
  · exact ((expansion_looks_alike _ filled [1, 0]).2 (flatVector 3) rfl).1
  · rw [← (expansion_looks_alike _ filled [2, 0]).1]
    rintro ⟨reached, found⟩
    cases found
  · rw [((expansion_looks_alike _ filled []).2 _ rfl).2.scalarCount]
    rfl
  · rw [((expansion_looks_alike _ filledLarge []).2 _ rfl).2.scalarCount]
    decide

end Descriptor

end DofNumbering
