import DofNumbering.Json
import DofNumbering.Text

namespace DofNumbering

/-! Structured indices of degrees of freedom.

Entry 0 selects the outermost block, every later entry a position within the
block selected so far.  Lists of one entry are plain flat indices.  The order is
the lexicographic one.
-/

abbrev MultiIndex := List Nat

namespace MultiIndex

def push (value : Nat) (index : MultiIndex) : MultiIndex := index ++ [value]

/-- Makes the value the new outermost entry. -/
def pushFront (value : Nat) (index : MultiIndex) : MultiIndex := value :: index

def flat (value : Nat) : MultiIndex := [value]

/-- The index, if there is exactly one entry. -/
def asFlat? : MultiIndex → Option Nat
  | [value] => some value
  | _ => none

def setEntry (position value : Nat) (index : MultiIndex) : Except Fault MultiIndex :=
  if position < index.length then .ok (index.set position value) else .error .outOfBounds

def addToEntry (position value : Nat) (index : MultiIndex) : Except Fault MultiIndex := do
  let old ← Index.entry index position
  let new ← Index.add old value
  .ok (index.set position new)

def text (index : MultiIndex) : String := Text.parenthesized (index.map toString)

/-- The text of a list of indices that is not read as a multi-index, such as a path. -/
def listText (index : List Nat) : String := Text.bracketed (index.map toString)

/-- The first entry that differs decides; an index comes before its extensions. -/
def compare : MultiIndex → MultiIndex → Ordering
  | [], [] => .eq
  | [], _ :: _ => .lt
  | _ :: _, [] => .gt
  | left :: lefts, right :: rights =>
    if left < right then .lt else if right < left then .gt else compare lefts rights

theorem compare_swap (left right : MultiIndex) :
    (compare left right).swap = compare right left := by
  induction left generalizing right with
  | nil => cases right <;> rfl
  | cons entry rest ih =>
      cases right with
      | nil => rfl
      | cons entry' rest' =>
          rcases Nat.lt_trichotomy entry entry' with lower | same | higher
          · simp only [compare, lower, Nat.lt_asymm lower, if_true, if_false]
            rfl
          · subst same
            simp only [compare, Nat.lt_irrefl, if_false]
            exact ih rest'
          · simp only [compare, higher, Nat.lt_asymm higher, if_true, if_false]
            rfl

theorem compare_eq_eq_iff {left right : MultiIndex} : compare left right = .eq ↔ left = right := by
  induction left generalizing right with
  | nil => cases right <;> simp [compare]
  | cons entry rest ih => cases right <;> grind [compare]

theorem compare_isLE_trans {left middle right : MultiIndex}
    (lower : (compare left middle).isLE) (upper : (compare middle right).isLE) :
    (compare left right).isLE := by
  induction left generalizing middle right with
  | nil => cases right <;> rfl
  | cons entry rest ih =>
      cases middle with
      | nil => simp [compare] at lower
      | cons entry' rest' =>
          cases right with
          | nil => simp [compare] at upper
          | cons entry'' rest'' => grind [compare, Ordering.isLE]

instance : Std.TransCmp compare where
  eq_swap := (compare_swap ..).symm
  isLE_trans := compare_isLE_trans

instance : Std.LawfulEqCmp compare := ⟨compare_eq_eq_iff.mp⟩

def sorted (indices : List MultiIndex) : List MultiIndex :=
  indices.mergeSort (fun left right => (compare left right).isLE)

/-- The members of a list, in ascending order and without repetition. -/
def distinct (indices : List MultiIndex) : List MultiIndex := (sorted indices).eraseReps

def toJson (index : MultiIndex) : Json := Json.indices index

def ofJson? (json : Json) : Option MultiIndex := json.indices?

end MultiIndex

end DofNumbering
