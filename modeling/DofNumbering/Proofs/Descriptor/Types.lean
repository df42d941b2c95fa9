import DofNumbering.Proofs.Descriptor
import Mathlib.Data.List.Basic

namespace DofNumbering.Descriptor

/-! Containers of the same type.

An empty vector leaves open what its children are like, so it has the type of every vector.
Types are compared at the first children of arrays and vectors only.  A container that has
no empty vector where it is compared determines its type: those that have the type of it
have the same type.  Then its type can stand for that of all children of a block.
-/

variable {left middle right : Descriptor} {children lefts rights : List Descriptor}

/-- Blocks of the same form are alike if they have alike children at the same places of a
tuple, and alike first children in an array or a vector, if there are any.  Static sizes
have to be equal. -/
inductive Alike : Descriptor → Descriptor → Prop where
  | unknown : Alike .unknown .unknown
  | value : Alike .value .value
  | tuple {lefts rights : List Descriptor} (sameLength : lefts.length = rights.length)
      (each : ∀ (i : Nat) left right, lefts[i]? = some left → rights[i]? = some right →
        Alike left right) :
      Alike (.block .tuple lefts) (.block .tuple rights)
  | sequence {form : Form} {lefts rights : List Descriptor} (notTuple : form ≠ .tuple)
      (sameLength : form = .array → lefts.length = rights.length)
      (first : ∀ left right, lefts.head? = some left → rights.head? = some right →
        Alike left right) :
      Alike (.block form lefts) (.block form rights)
  | static {size : Nat} {left right : Descriptor} (inner : Alike left right) :
      Alike (.uniform (.static size) left) (.uniform (.static size) right)
  | dynamic {size size' : Nat} {left right : Descriptor} (inner : Alike left right) :
      Alike (.uniform (.dynamic size) left) (.uniform (.dynamic size') right)

section Comparison

theorem sameTypes_iff : sameTypes lefts rights = true ↔ ∀ (i : Nat) left right,
    lefts[i]? = some left → rights[i]? = some right → left.sameType right = true := by
  induction lefts generalizing rights with
  | nil => simp [sameTypes]
  | cons left lefts ih =>
      cases rights with
      | nil => simp [sameTypes]
      | cons right rights =>
          rw [sameTypes, Bool.and_eq_true, ih]
          constructor
          · rintro ⟨first, rest⟩ i left' right' found found'
            cases i with
            | zero => simp_all
            | succ i => exact rest i left' right' found found'
          · intro each
            exact ⟨each 0 left right rfl rfl, fun i => each (i + 1)⟩

theorem sameFirstType_iff : sameFirstType lefts rights = true ↔ ∀ left right,
    lefts.head? = some left → rights.head? = some right → left.sameType right = true := by
  cases lefts <;> cases rights <;> simp [sameFirstType]

theorem alike_of_sameType (same : left.sameType right = true) : Alike left right := by
  induction left generalizing right with
  | unknown =>
      cases right with
      | unknown => exact .unknown
      | _ => simp [sameType] at same
  | value =>
      cases right with
      | value => exact .value
      | _ => simp [sameType] at same
  | block form lefts each =>
      cases right with
      | block form' rights =>
          cases form <;> cases form' <;> simp [sameType] at same
          case tuple.tuple =>
            exact .tuple same.1 (fun i left right found found' =>
              each left (List.mem_of_getElem? found) (sameTypes_iff.mp same.2 i _ _ found found'))
          case array.array =>
            exact .sequence nofun (fun _ => same.1) (fun left right found found' =>
              each left (List.mem_of_head? found) (sameFirstType_iff.mp same.2 _ _ found found'))
          case vector.vector =>
            exact .sequence nofun nofun (fun left right found found' =>
              each left (List.mem_of_head? found) (sameFirstType_iff.mp same _ _ found found'))
      | _ => cases form <;> simp [sameType] at same
  | uniform extent left inner =>
      cases right with
      | uniform extent' right =>
          cases extent <;> cases extent' <;> simp [sameType] at same
          case static.static =>
            obtain ⟨rfl, same⟩ := same
            exact .static (inner same)
          case dynamic.dynamic => exact .dynamic (inner same)
      | _ => cases extent <;> simp [sameType] at same

theorem sameType_of_alike (alike : Alike left right) : left.sameType right = true := by
  induction alike with
  | unknown => rw [sameType]
  | value => rw [sameType]
  | tuple sameLength each ih =>
      rw [sameType, Bool.and_eq_true, beq_iff_eq]
      exact ⟨sameLength, sameTypes_iff.mpr ih⟩
  | @sequence form lefts rights notTuple sameLength first ih =>
      cases form with
      | tuple => exact absurd rfl notTuple
      | array =>
          rw [sameType, Bool.and_eq_true, beq_iff_eq]
          exact ⟨sameLength rfl, sameFirstType_iff.mpr ih⟩
      | vector =>
          rw [sameType]
          exact sameFirstType_iff.mpr ih
  | static inner ih => simp [sameType, ih]
  | dynamic inner ih => simp [sameType, ih]

theorem sameType_iff_alike : left.sameType right = true ↔ Alike left right :=
  ⟨alike_of_sameType, sameType_of_alike⟩

theorem Alike.refl (node : Descriptor) : Alike node node :=
  alike_of_sameType (sameType_refl node)

theorem Alike.symm (alike : Alike left right) : Alike right left := by
  induction alike with
  | unknown => exact .unknown
  | value => exact .value
  | tuple sameLength _ ih =>
      exact .tuple sameLength.symm (fun i right left found found' => ih i left right found' found)
  | sequence notTuple sameLength _ ih =>
      exact .sequence notTuple (fun isArray => (sameLength isArray).symm)
        (fun right left found found' => ih left right found' found)
  | static _ ih => exact .static ih
  | dynamic _ ih => exact .dynamic ih

theorem sameType_comm (left right : Descriptor) : left.sameType right = right.sameType left := by
  rw [Bool.eq_iff_iff, sameType_iff_alike, sameType_iff_alike]
  exact ⟨Alike.symm, Alike.symm⟩

theorem homogeneous_iff : homogeneous children = true ↔ ∀ first, children.head? = some first →
    ∀ child ∈ children, Alike first child := by
  cases children with
  | nil => simp [homogeneous]
  | cons first rest =>
      simp [homogeneous, sameType_iff_alike, Alike.refl]

end Comparison

/-- No empty vector is among the parts that are compared. -/
inductive Determined : Descriptor → Prop where
  | unknown : Determined .unknown
  | value : Determined .value
  | tuple {children : List Descriptor} (each : ∀ child ∈ children, Determined child) :
      Determined (.block .tuple children)
  | sequence {form : Form} {children : List Descriptor} (notTuple : form ≠ .tuple)
      (nonempty : form = .vector → children ≠ [])
      (first : ∀ child, children.head? = some child → Determined child) :
      Determined (.block form children)
  | uniform {extent : Extent} {child : Descriptor} (inner : Determined child) :
      Determined (.uniform extent child)

/-- What is like a container that determines its type is alike. -/
theorem Determined.trans (determined : middle.Determined) (first : Alike left middle)
    (second : Alike middle right) : Alike left right := by
  induction determined generalizing left right with
  | unknown =>
      cases first
      exact second
  | value =>
      cases first
      exact second
  | @tuple middles each ih =>
      cases first with
      | sequence notTuple => exact absurd rfl notTuple
      | tuple sameLength eachLeft =>
          cases second with
          | sequence notTuple => exact absurd rfl notTuple
          | tuple sameLength' eachRight =>
              refine .tuple (sameLength.trans sameLength') (fun i left right found found' => ?_)
              have inLefts := (List.getElem?_eq_some_iff.mp found).1
              have foundMiddle := List.getElem?_eq_getElem (sameLength ▸ inLefts)
              exact ih _ (List.mem_of_getElem? foundMiddle) (eachLeft i _ _ found foundMiddle)
                (eachRight i _ _ foundMiddle found')
  | @sequence form middles notTuple nonempty _ ih =>
      cases first with
      | tuple => exact absurd rfl notTuple
      | sequence _ sameLength firstLeft =>
          cases second with
          | tuple => exact absurd rfl notTuple
          | sequence _ sameLength' firstRight =>
              refine .sequence notTuple (fun isArray => (sameLength isArray).trans
                (sameLength' isArray)) (fun left right found found' => ?_)
              -- The block in the middle has a first child: a vector by itself, an array as
              -- it is as long as the others.
              have someMiddle : middles ≠ [] := by
                rintro rfl
                cases form with
                | tuple => exact notTuple rfl
                | array =>
                    obtain rfl := List.length_eq_zero_iff.mp (sameLength rfl)
                    cases found
                | vector => exact nonempty rfl rfl
              obtain ⟨middle, rest, rfl⟩ := List.exists_cons_of_ne_nil someMiddle
              exact ih middle rfl (firstLeft _ _ found rfl) (firstRight _ _ rfl found')
  | uniform _ ih =>
      cases first with
      | static inner =>
          cases second with
          | static inner' => exact .static (ih inner inner')
      | dynamic inner =>
          cases second with
          | dynamic inner' => exact .dynamic (ih inner inner')

theorem Determined.alike_of_first {first : Descriptor} (determined : first.Determined)
    (each : ∀ child ∈ children, Alike first child) :
    ∀ left ∈ children, ∀ right ∈ children, left.sameType right = true := by
  intro left inChildren right inChildren'
  exact sameType_of_alike (determined.trans (each left inChildren).symm (each right inChildren'))

/-- The first child decides for all of them. -/
theorem homogeneous_iff_alike
    (determined : ∀ first, children.head? = some first → first.Determined) :
    homogeneous children = true ↔
      ∀ left ∈ children, ∀ right ∈ children, left.sameType right = true := by
  rw [homogeneous_iff]
  constructor
  · intro each left inChildren
    obtain ⟨first, rest, rfl⟩ := List.exists_cons_of_ne_nil (List.ne_nil_of_mem inChildren)
    exact (determined first rfl).alike_of_first (each first rfl) left inChildren
  · intro each first isFirst child inChildren
    exact alike_of_sameType (each first (List.mem_of_head? isFirst) child inChildren)

theorem ofChildren_eq_array_iff :
    ofChildren children = .block .array children ↔ homogeneous children = true := by
  unfold ofChildren
  split <;> simp_all

theorem ofChildren_eq_tuple_iff :
    ofChildren children = .block .tuple children ↔ ¬ homogeneous children = true := by
  unfold ofChildren
  split <;> simp_all

end DofNumbering.Descriptor
