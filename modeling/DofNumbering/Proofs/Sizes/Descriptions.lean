import DofNumbering.Description

namespace DofNumbering.Description

/-! What a description says about the sizes of its bases.

A flat composite only passes first entries in range on to its members, and a flat
lexicographic power those that it makes itself; the other nodes pass on what they get.
So whether a size stands for degrees of freedom is a matter of the nodes above.
-/

mutual

/-- Some flat interleaved power has no copies. -/
def divides : Description → Bool
  | .lagrange _ => false
  | .power child exponent merging =>
      decide (exponent = 0 ∧ merging = .flatInterleaved) || child.divides
  | .composite children _ => anyDivides children

def anyDivides : List Description → Bool
  | [] => false
  | child :: rest => child.divides || anyDivides rest

end

mutual

/-- No node is blocked, so the indices have one entry. -/
def isFlat : Description → Bool
  | .lagrange _ => true
  | .power child _ merging => !merging.blocked && child.isFlat
  | .composite children merging => !merging.blocked && allFlat children

def allFlat : List Description → Bool
  | [] => true
  | child :: rest => child.isFlat && allFlat rest

end

/-- The faults that sizes can end with: a blocked node has no child of that number, or a power
without copies divides by their number. -/
def mayFail (description : Description) : Fault → Prop
  | .powerChild _ _ | .compositeChild _ => description.isFlat = false
  | .arithmetic => description.divides = true
  | _ => False

mutual

/-- There are degrees of freedom on each grid with elements. -/
def hasDofs : Description → Bool
  | .lagrange _ => true
  | .power child exponent _ => decide (0 < exponent) && child.hasDofs
  | .composite children _ => anyHasDofs children

def anyHasDofs : List Description → Bool
  | [] => false
  | child :: rest => child.hasDofs || anyHasDofs rest

end

mutual

/-- What is counted after a stem are entries of degrees of freedom, at least if the nodes
above check that first entries are in range. -/
def faithful (checked : Bool) : Description → Bool
  | .lagrange _ => true
  | .power child exponent ⟨true, .lexicographic⟩ =>
      decide (exponent = 0) || child.hasDofs && child.faithful false
  | .power child exponent ⟨true, .interleaved⟩ =>
      decide (0 < exponent) && checked && child.isFlat
  | .power child exponent ⟨false, .lexicographic⟩ =>
      child.isFlat || checked && (decide (exponent = 0) || child.faithful true)
  | .power child exponent ⟨false, .interleaved⟩ =>
      if exponent = 0 then checked else child.faithful checked
  | .composite children ⟨true, _⟩ => anyHasDofs children && allFaithful false children
  | .composite children ⟨false, _⟩ => allFaithful true children

def allFaithful (checked : Bool) : List Description → Bool
  | [] => true
  | child :: rest => child.faithful checked && allFaithful checked rest

end

variable {children : List Description} {child : Description} {checked : Bool}

theorem anyDivides_iff :
    anyDivides children = true ↔ ∃ child ∈ children, child.divides = true := by
  induction children with
  | nil => simp [anyDivides]
  | cons first rest ih => simp [anyDivides, ih]

theorem allFlat_iff : allFlat children = true ↔ ∀ child ∈ children, child.isFlat = true := by
  induction children with
  | nil => simp [allFlat]
  | cons first rest ih => simp [allFlat, ih]

theorem allFlat_eq_false_iff :
    allFlat children = false ↔ ∃ child ∈ children, child.isFlat = false := by
  rw [← Bool.not_eq_true, allFlat_iff]
  simp

theorem anyHasDofs_iff :
    anyHasDofs children = true ↔ ∃ child ∈ children, child.hasDofs = true := by
  induction children with
  | nil => simp [anyHasDofs]
  | cons first rest ih => simp [anyHasDofs, ih]

theorem allFaithful_iff :
    allFaithful checked children = true ↔ ∀ child ∈ children, child.faithful checked = true := by
  induction children with
  | nil => simp [allFaithful]
  | cons first rest ih => simp [allFaithful, ih]

theorem allFaithful_eq_false_iff : allFaithful checked children = false ↔
    ∃ child ∈ children, child.faithful checked = false := by
  rw [← Bool.not_eq_true, allFaithful_iff]
  simp

theorem mayFail_mono {description : Description} {fault : Fault} (permitted : child.mayFail fault)
    (flat : description.isFlat = true → child.isFlat = true)
    (divides : child.divides = true → description.divides = true) : description.mayFail fault := by
  have notFlat : child.isFlat = false → description.isFlat = false := by
    intro notFlat
    cases isFlat : description.isFlat with
    | false => rfl
    | true => exact absurd (flat isFlat) (notFlat ▸ Bool.false_ne_true)
  cases fault with
  | arithmetic => exact divides permitted
  | powerChild _ _ => exact notFlat permitted
  | compositeChild _ => exact notFlat permitted
  | _ => exact permitted.elim

theorem not_mayFail {description : Description} {fault : Fault} (flat : description.isFlat = true)
    (notDivides : description.divides = false) : ¬ description.mayFail fault := by
  cases fault <;> simp [mayFail, flat, notDivides]

theorem mayFail_power {exponent : Nat} {merging : Merging} {fault : Fault}
    (permitted : child.mayFail fault) : (power child exponent merging).mayFail fault := by
  refine mayFail_mono permitted (fun flat => ?_) (fun divides => ?_)
  · rw [isFlat, Bool.and_eq_true] at flat
    exact flat.2
  · rw [Description.divides, divides, Bool.or_true]

theorem mayFail_composite {merging : Merging} {fault : Fault} (inChildren : child ∈ children)
    (permitted : child.mayFail fault) : (composite children merging).mayFail fault := by
  refine mayFail_mono permitted (fun flat => ?_) (fun divides => ?_)
  · rw [isFlat, Bool.and_eq_true] at flat
    exact allFlat_iff.mp flat.2 child inChildren
  · exact anyDivides_iff.mpr ⟨child, inChildren, divides⟩

mutual

theorem faithful_of_isFlat : (description : Description) → description.isFlat = true →
    description.faithful true = true
  | .lagrange _, _ => by rw [faithful]
  | .power child exponent ⟨blocked, layout⟩, flat => by
      obtain ⟨rfl, childFlat⟩ : blocked = false ∧ child.isFlat = true := by
        simpa [isFlat] using flat
      have childFaithful := faithful_of_isFlat child childFlat
      cases layout with
      | lexicographic => simp [faithful, childFlat]
      | interleaved => simp [faithful, childFaithful]
  | .composite children ⟨blocked, layout⟩, flat => by
      obtain ⟨rfl, childrenFlat⟩ : blocked = false ∧ allFlat children = true := by
        simpa [isFlat] using flat
      rw [faithful]
      exact allFaithful_of_allFlat children childrenFlat

theorem allFaithful_of_allFlat : (children : List Description) → allFlat children = true →
    allFaithful true children = true
  | [], _ => by rw [allFaithful]
  | child :: rest, flat => by
      obtain ⟨childFlat, restFlat⟩ : child.isFlat = true ∧ allFlat rest = true := by
        simpa [allFlat] using flat
      rw [allFaithful, faithful_of_isFlat child childFlat, allFaithful_of_allFlat rest restFlat]
      rfl

end

end DofNumbering.Description
