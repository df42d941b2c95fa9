import DofNumbering.Proofs.Descriptor.Types

namespace DofNumbering.Descriptor

/-! Blocks whose form is chosen by a comparison with their first child.

This is sound exactly for the first children that determine their type.  An empty vector
that is compared can be filled in two ways, with containers of different types that both
have the type of what was there before.
-/

variable {node left right child : Descriptor} {children lefts rights : List Descriptor}
  {form : Form} {extent : Extent}

section Made

/-- The containers that are not put together by hand: the form of a block is chosen or
checked by a comparison of its children. -/
inductive Made : Descriptor → Prop where
  | unknown : Made .unknown
  | value : Made .value
  | ofChildren {children : List Descriptor} (each : ∀ child ∈ children, Made child) :
      Made (ofChildren children)
  | vectorOf {children : List Descriptor} {node : Descriptor}
      (each : ∀ child ∈ children, Made child) (built : vectorOf children = .ok node) : Made node
  | uniform {extent : Extent} {child : Descriptor} (inner : Made child) :
      Made (.uniform extent child)

theorem Made.of_uniform (made : (Descriptor.uniform extent child).Made) : child.Made := by
  generalize same : Descriptor.uniform extent child = node at made
  cases made with
  | unknown => cases same
  | value => cases same
  | ofChildren =>
      obtain ⟨form, block⟩ := ofChildren_eq_block _
      rw [block] at same
      cases same
  | vectorOf _ built =>
      unfold Descriptor.vectorOf at built
      split at built <;> cases built
      cases same
  | uniform inner =>
      cases same
      exact inner

theorem made_block_iff : (block form children).Made ↔
    (∀ child ∈ children, child.Made) ∧ (homogeneous children = true ↔ form ≠ .tuple) := by
  constructor
  · intro made
    generalize same : block form children = node at made
    cases made with
    | unknown => cases same
    | value => cases same
    | uniform => cases same
    | ofChildren each =>
        unfold Descriptor.ofChildren at same
        split at same <;> cases same <;> simp_all
    | vectorOf each built =>
        unfold Descriptor.vectorOf at built
        split at built <;> cases built
        cases same
        simp_all
  · rintro ⟨each, likeForm⟩
    cases form with
    | tuple =>
        rw [← ofChildren_eq_tuple_iff.mpr (by simp [likeForm])]
        exact .ofChildren each
    | array =>
        rw [← ofChildren_eq_array_iff.mpr (by simp [likeForm])]
        exact .ofChildren each
    | vector => exact .vectorOf each (if_pos (likeForm.mpr nofun))

theorem Made.alike_first (made : (block form children).Made) (notTuple : form ≠ .tuple)
    {first : Descriptor} (isFirst : children.head? = some first) :
    ∀ child ∈ children, Alike first child :=
  homogeneous_iff.mp ((made_block_iff.mp made).2.mpr notTuple) first isFirst

/-- In blocks whose children are alike, the first children of two decide for all. -/
theorem sameType_sequence_iff (notTuple : form ≠ .tuple) (made : (block form lefts).Made)
    (made' : (block form rights).Made)
    (determined : ∀ first, lefts.head? = some first → first.Determined)
    (determined' : ∀ first, rights.head? = some first → first.Determined) :
    (block form lefts).sameType (block form rights) = true ↔
      (form = .array → lefts.length = rights.length) ∧
        ∀ left ∈ lefts ++ rights, ∀ right ∈ lefts ++ rights, left.sameType right = true := by
  rw [sameType_iff_alike]
  constructor
  · intro alike
    cases alike with
    | tuple => exact absurd rfl notTuple
    | sequence _ sameLength firsts =>
        refine ⟨sameLength, ?_⟩
        cases lefts with
        | nil =>
            exact (homogeneous_iff_alike determined').mp ((made_block_iff.mp made').2.mpr notTuple)
        | cons left lefts =>
            refine (determined left rfl).alike_of_first (fun child inBoth => ?_)
            rcases List.mem_append.mp inBoth with inLefts | inRights
            · exact made.alike_first notTuple rfl child inLefts
            · obtain ⟨right, rest, rfl⟩ := List.exists_cons_of_ne_nil (List.ne_nil_of_mem inRights)
              exact (determined' right rfl).trans (firsts left right rfl rfl)
                (made'.alike_first notTuple rfl child inRights)
  · rintro ⟨sameLength, each⟩
    refine .sequence notTuple sameLength (fun left right isFirst isFirst' => alike_of_sameType ?_)
    exact each left (List.mem_append_left _ (List.mem_of_head? isFirst)) right
      (List.mem_append_right _ (List.mem_of_head? isFirst'))

end Made

section Holes

/-- Whatever is like the first container is like the second one. -/
def Refines (left right : Descriptor) : Prop := ∀ other, Alike left other → Alike right other

theorem Refines.alike (refines : left.Refines right) : Alike right left :=
  refines left (.refl left)

theorem Refines.tuple {i : Nat} (found : children[i]? = some child) (refines : left.Refines child) :
    (block .tuple (children.set i left)).Refines (block .tuple children) := by
  intro other alike
  cases alike with
  | sequence notTuple => exact absurd rfl notTuple
  | tuple sameLength each =>
      refine .tuple (by simpa using sameLength) (fun k child' other' found' foundOther => ?_)
      by_cases same : i = k
      · subst same
        obtain rfl := Option.some.inj (found.symm.trans found')
        have inChildren := (List.getElem?_eq_some_iff.mp found).1
        exact refines other' (each i left other' (by simp [inChildren]) foundOther)
      · exact each k child' other' (by rw [List.getElem?_set_ne same, found']) foundOther

theorem Refines.sequence {first : Descriptor} {rest : List Descriptor} (notTuple : form ≠ .tuple)
    (refines : left.Refines first) :
    (block form (List.replicate (rest.length + 1) left)).Refines (block form (first :: rest)) := by
  intro other alike
  cases alike with
  | tuple => exact absurd rfl notTuple
  | sequence _ sameLength firsts =>
      refine .sequence notTuple (fun isArray => by simpa using sameLength isArray) ?_
      intro first' other' isFirst isFirst'
      obtain rfl := Option.some.inj isFirst
      exact refines other' (firsts left other' rfl isFirst')

theorem Refines.uniform (refines : left.Refines right) :
    (Descriptor.uniform extent left).Refines (Descriptor.uniform extent right) := by
  intro other alike
  cases alike with
  | static inner => exact .static (refines _ inner)
  | dynamic inner => exact .dynamic (refines _ inner)

/-- Children of which one is replaced are not alike if they were not before. -/
theorem homogeneous_of_set {i : Nat} (found : children[i]? = some child)
    (refines : left.Refines child) (alike : homogeneous (children.set i left) = true) :
    homogeneous children = true := by
  rw [homogeneous_iff] at alike ⊢
  intro first isFirst other inChildren
  rw [List.head?_eq_getElem?] at isFirst
  obtain ⟨k, foundOther⟩ := List.mem_iff_getElem?.mp inChildren
  have inRange := (List.getElem?_eq_some_iff.mp found).1
  by_cases atFirst : i = 0
  · subst atFirst
    obtain rfl := Option.some.inj (found.symm.trans isFirst)
    have first' : (children.set 0 left).head? = some left := by
      simp [List.head?_eq_getElem?, inRange]
    by_cases same : k = 0
    · subst same
      obtain rfl := Option.some.inj (found.symm.trans foundOther)
      exact .refl _
    · refine refines other (alike left first' other (List.mem_of_getElem? (i := k) ?_))
      rw [List.getElem?_set_ne (Ne.symm same), foundOther]
  · have first' : (children.set i left).head? = some first := by
      rw [List.head?_eq_getElem?, List.getElem?_set_ne atFirst, isFirst]
    by_cases same : i = k
    · subst same
      obtain rfl := Option.some.inj (found.symm.trans foundOther)
      have inSet : left ∈ children.set i left :=
        List.mem_of_getElem? (i := i) (by simp [inRange])
      exact (refines first (alike first first' left inSet).symm).symm
    · refine alike first first' other (List.mem_of_getElem? (i := k) ?_)
      rw [List.getElem?_set_ne same, foundOther]

theorem Made.tuple_set {i : Nat} (made : (block .tuple children).Made)
    (found : children[i]? = some child) (refines : left.Refines child) (madeLeft : left.Made) :
    (block .tuple (children.set i left)).Made := by
  obtain ⟨each, likeForm⟩ := made_block_iff.mp made
  refine made_block_iff.mpr ⟨fun other inSet => ?_, iff_of_false (fun alike => ?_) (by simp)⟩
  · rcases List.mem_or_eq_of_mem_set inSet with inChildren | rfl
    · exact each other inChildren
    · exact madeLeft
  · exact likeForm.mp (homogeneous_of_set found refines alike) rfl

theorem Made.replicate (notTuple : form ≠ .tuple) (made : node.Made) (count : Nat) :
    (block form (List.replicate count node)).Made := by
  refine made_block_iff.mpr ⟨fun child inCopies => ?_, iff_of_true ?_ notTuple⟩
  · exact List.eq_of_mem_replicate inCopies ▸ made
  · refine homogeneous_iff.mpr (fun first isFirst child inCopies => ?_)
    obtain rfl := List.eq_of_mem_replicate (List.mem_of_head? isFirst)
    obtain rfl := List.eq_of_mem_replicate inCopies
    exact .refl _

/-- Two containers of different types both refine the given one. -/
def Ambiguous (node : Descriptor) : Prop :=
  ∃ left right : Descriptor, left.Made ∧ right.Made ∧ left.Refines node ∧ right.Refines node ∧
    ¬ Alike left right

theorem Ambiguous.uniform (inner : child.Ambiguous) :
    (Descriptor.uniform extent child).Ambiguous := by
  obtain ⟨left, right, madeLeft, madeRight, refines, refines', unlike⟩ := inner
  refine ⟨_, _, .uniform madeLeft, .uniform madeRight, refines.uniform, refines'.uniform, ?_⟩
  intro alike
  cases alike with
  | static inner => exact unlike inner
  | dynamic inner => exact unlike inner

theorem Ambiguous.tuple (made : (block .tuple children).Made) (inChildren : child ∈ children)
    (inner : child.Ambiguous) : (block .tuple children).Ambiguous := by
  obtain ⟨i, found⟩ := List.mem_iff_getElem?.mp inChildren
  obtain ⟨left, right, madeLeft, madeRight, refines, refines', unlike⟩ := inner
  refine ⟨_, _, made.tuple_set found refines madeLeft, made.tuple_set found refines' madeRight,
    .tuple found refines, .tuple found refines', fun alike => ?_⟩
  have inRange := (List.getElem?_eq_some_iff.mp found).1
  cases alike with
  | sequence notTuple => exact notTuple rfl
  | tuple _ pairs => exact unlike (pairs i left right (by simp [inRange]) (by simp [inRange]))

theorem Ambiguous.sequence {first : Descriptor} {rest : List Descriptor} (notTuple : form ≠ .tuple)
    (inner : first.Ambiguous) : (block form (first :: rest)).Ambiguous := by
  obtain ⟨left, right, madeLeft, madeRight, refines, refines', unlike⟩ := inner
  refine ⟨_, _, .replicate notTuple madeLeft _, .replicate notTuple madeRight _,
    .sequence notTuple refines, .sequence notTuple refines', fun alike => ?_⟩
  cases alike with
  | tuple => exact notTuple rfl
  | sequence _ _ firsts => exact unlike (firsts left right rfl rfl)

theorem ambiguous_empty_vector : (block .vector []).Ambiguous := by
  have notTuple : Form.vector ≠ .tuple := by decide
  have refines (child : Descriptor) : (block .vector [child]).Refines (block .vector []) := by
    intro other alike
    cases alike with
    | sequence => exact .sequence notTuple nofun nofun
  refine ⟨block .vector [.value], block .vector [.unknown], .replicate notTuple .value 1,
    .replicate notTuple .unknown 1, refines .value, refines .unknown, fun alike => ?_⟩
  cases alike with
  | sequence _ _ firsts => cases firsts _ _ rfl rfl

/-- An empty vector that is compared can be filled in two ways that are not alike. -/
theorem Made.ambiguous (made : node.Made) (undetermined : ¬ node.Determined) :
    node.Ambiguous := by
  induction node with
  | unknown => exact absurd .unknown undetermined
  | value => exact absurd .value undetermined
  | uniform extent child ih =>
      exact (ih made.of_uniform (fun inner => undetermined (.uniform inner))).uniform
  | block form children ih =>
      have each := (made_block_iff.mp made).1
      by_cases isTuple : form = .tuple
      · subst isTuple
        obtain ⟨child, inChildren, isOpen⟩ : ∃ child ∈ children, ¬ child.Determined := by
          by_contra none
          exact undetermined (.tuple (by simpa using none))
        exact .tuple made inChildren (ih child inChildren (each child inChildren) isOpen)
      · cases children with
        | nil =>
            -- Only an empty vector has a type that is open at once.
            obtain rfl : form = .vector := by
              by_contra notVector
              exact undetermined
                (.sequence isTuple (fun isVector => absurd isVector notVector) nofun)
            exact ambiguous_empty_vector
        | cons first rest =>
            have isOpen : ¬ first.Determined := fun determined =>
              undetermined (.sequence isTuple nofun (fun child isFirst =>
                Option.some.inj isFirst ▸ determined))
            exact .sequence isTuple
              (ih first List.mem_cons_self (each first List.mem_cons_self) isOpen)

theorem Made.exists_misled (made : node.Made) (undetermined : ¬ node.Determined) :
    ∃ left right : Descriptor, left.Made ∧ right.Made ∧ node.sameType left = true ∧
      node.sameType right = true ∧ ¬ left.sameType right = true := by
  obtain ⟨left, right, madeLeft, madeRight, refines, refines', unlike⟩ :=
    made.ambiguous undetermined
  exact ⟨left, right, madeLeft, madeRight, sameType_of_alike refines.alike,
    sameType_of_alike refines'.alike, fun same => unlike (alike_of_sameType same)⟩

end Holes

/-- Having the same type is reflexive and symmetric.  The containers without an empty vector where
types are compared are exactly those through which it passes on, and exactly those that can be
the first of the children: then `ofChildren` makes an array if and only if the children are
all of the same type, and comparing the first children of arrays or vectors compares all. -/
theorem first_child_decides_types (node : Descriptor) (made : node.Made) :
    node.sameType node = true ∧
    (∀ other : Descriptor, node.sameType other = other.sameType node) ∧
    (node.Determined ↔ ∀ left right : Descriptor, left.Made → right.Made →
      left.sameType node = true → node.sameType right = true → left.sameType right = true) ∧
    (node.Determined ↔ ∀ rest : List Descriptor, (∀ child ∈ rest, child.Made) →
      (ofChildren (node :: rest) = .block .array (node :: rest) ↔
        ∀ left ∈ node :: rest, ∀ right ∈ node :: rest, left.sameType right = true) ∧
      (ofChildren (node :: rest) = .block .tuple (node :: rest) ↔
        ¬ ∀ left ∈ node :: rest, ∀ right ∈ node :: rest, left.sameType right = true)) ∧
    (node.Determined ↔ ∀ (form : Form) (rest others : List Descriptor), form ≠ .tuple →
      (block form (node :: rest)).Made → (block form others).Made →
      (∀ first, others.head? = some first → first = node ∨ first.Determined) →
      ((block form (node :: rest)).sameType (block form others) = true ↔
        (form = .array → (node :: rest).length = others.length) ∧
          ∀ left ∈ node :: rest ++ others, ∀ right ∈ node :: rest ++ others,
            left.sameType right = true)) := by
  refine ⟨sameType_refl node, sameType_comm node, ?_, ?_, ?_⟩
  · constructor
    · intro determined left right _ _ first second
      exact sameType_of_alike
        (determined.trans (alike_of_sameType first) (alike_of_sameType second))
    · intro passes
      by_contra undetermined
      obtain ⟨left, right, madeLeft, madeRight, likeLeft, likeRight, unlike⟩ :=
        made.exists_misled undetermined
      exact unlike (passes left right madeLeft madeRight ((sameType_comm _ _).trans likeLeft)
        likeRight)
  · constructor
    · intro determined rest _
      rw [ofChildren_eq_array_iff, ofChildren_eq_tuple_iff,
        homogeneous_iff_alike (by simpa using determined)]
      exact ⟨Iff.rfl, Iff.rfl⟩
    · intro chosen
      by_contra undetermined
      obtain ⟨left, right, madeLeft, madeRight, likeLeft, likeRight, unlike⟩ :=
        made.exists_misled undetermined
      have array : ofChildren [node, left, right] = .block .array [node, left, right] :=
        ofChildren_eq_array_iff.mpr (by simp [homogeneous, likeLeft, likeRight])
      have same := (chosen [left, right] (by simp [madeLeft, madeRight])).1.mp array
      exact unlike (same left (by simp) right (by simp))
  · constructor
    · intro determined form rest others notTuple made made' firsts
      refine sameType_sequence_iff notTuple made made' (by simpa using determined) ?_
      intro first isFirst
      rcases firsts first isFirst with rfl | determined'
      · exact determined
      · exact determined'
    · intro compared
      by_contra undetermined
      obtain ⟨left, right, madeLeft, madeRight, likeLeft, likeRight, unlike⟩ :=
        made.exists_misled undetermined
      have pair {child : Descriptor} (madeChild : child.Made) (like : node.sameType child = true) :
          (block .array [node, child]).Made :=
        made_block_iff.mpr ⟨by simp [made, madeChild],
          iff_of_true (by simp [homogeneous, like]) (by simp)⟩
      have same : (block .array [node, left]).sameType (block .array [node, right]) = true := by
        simp [sameType, sameFirstType, sameType_refl]
      have all := (compared .array [left] [node, right] (by simp) (pair madeLeft likeLeft)
        (pair madeRight likeRight) (by simp)).mp same
      exact unlike (all.2 left (by simp) right (by simp))

theorem first_child_decides_types_flat :
    (flatVector 18).sameType (flatVector 7) = true ∧
    ofChildren [flatVector 18, flatVector 4] = .block .array [flatVector 18, flatVector 4] ∧
    ofChildren [flatVector 2, .value] = .block .tuple [flatVector 2, .value] ∧
    (block .vector [flatVector 1, flatVector 2]).sameType (block .vector [flatVector 3]) = true ∧
    ¬ (block .vector []).Determined ∧
    ∃ left right : Descriptor, left.sameType (block .vector []) = true ∧
      (block .vector []).sameType right = true ∧ ¬ left.sameType right = true := by
  have flat (size : Nat) : (flatVector size).Determined := .uniform .value
  have flatMade (size : Nat) : (flatVector size).Made := .uniform .value
  have pair : (block .vector [flatVector 1, flatVector 2]).Made :=
    made_block_iff.mpr ⟨by simp [flatMade], by decide⟩
  have alone : (block .vector [flatVector 3]).Made :=
    made_block_iff.mpr ⟨by simp [flatMade], by decide⟩
  have empty : (block .vector []).Made := made_block_iff.mpr ⟨by simp, by decide⟩
  have undetermined : ¬ (block .vector []).Determined := by
    intro determined
    cases determined with
    | sequence _ nonempty => exact nonempty rfl rfl
  refine ⟨?_, ?_, ?_, ?_, undetermined, ?_⟩
  · obtain ⟨-, -, passes, -⟩ := first_child_decides_types (flatVector 4) (flatMade 4)
    exact passes.mp (flat 4) _ _ (flatMade 18) (flatMade 7) rfl rfl
  · obtain ⟨-, -, -, chosen, -⟩ := first_child_decides_types (flatVector 18) (flatMade 18)
    exact (chosen.mp (flat 18) _ (by simp [flatMade])).1.mpr (by decide)
  · obtain ⟨-, -, -, chosen, -⟩ := first_child_decides_types (flatVector 2) (flatMade 2)
    exact (chosen.mp (flat 2) _ (by simp [Made.value])).2.mpr (by decide)
  · obtain ⟨-, -, -, -, compared⟩ := first_child_decides_types (flatVector 1) (flatMade 1)
    exact (compared.mp (flat 1) .vector _ _ nofun pair alone (by simp [flat])).mpr
      ⟨nofun, by decide⟩
  · obtain ⟨-, -, passes, -⟩ := first_child_decides_types (block .vector []) empty
    by_contra none
    refine undetermined (passes.mpr (fun left right _ _ first second => ?_))
    by_contra unlike
    exact none ⟨left, right, first, second, unlike⟩

/-- An empty vector in front of vectors of different types makes them the children of an array,
and arrays in which other vectors follow it have the same type. -/
theorem empty_vector_misleads :
    vectorOf [] = .ok (.block .vector []) ∧ vectorOf [.value] = .ok (.block .vector [.value]) ∧
    vectorOf [.unknown] = .ok (.block .vector [.unknown]) ∧
    (block .vector [.value]).sameType (.block .vector []) = true ∧
    (block .vector []).sameType (.block .vector [.unknown]) = true ∧
    (block .vector [.value]).sameType (.block .vector [.unknown]) = false ∧
    ofChildren [.block .vector [], .block .vector [.value], .block .vector [.unknown]] =
      .block .array [.block .vector [], .block .vector [.value], .block .vector [.unknown]] ∧
    (ofChildren [.block .vector [], .block .vector [.value]]).sameType
      (ofChildren [.block .vector [], .block .vector [.unknown]]) = true :=
  ⟨rfl, rfl, rfl, rfl, rfl, rfl, rfl, rfl⟩

end DofNumbering.Descriptor
