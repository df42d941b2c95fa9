import DofNumbering.Flattener
import DofNumbering.Traversal
import Std.Data.TreeSet

namespace DofNumbering

/-! The check that the indices of all elements cover the global numbering.

Every index has to be that of a degree of freedom, no element may have an index
twice, and every degree of freedom has to occur on some element.
-/

structure Coverage where
  dimension : Nat
  /-- The number of pairs of an element and a local index. -/
  numLocalIndices : Nat
  /-- The largest number of local degrees of freedom. -/
  maxLocalSize : Nat
deriving DecidableEq, Repr

inductive CoverageError where
  | outOfBounds (element : Nat) (index : MultiIndex)
  | duplicate (element : Nat) (index : MultiIndex)
  | uncovered (missing : List Nat) (dimension : Nat)
  | tooLarge (element size maximum : Nat)
deriving DecidableEq, Repr

def CoverageError.message : CoverageError → String
  | .outOfBounds element index =>
      "Element " ++ toString element ++ " produced out of bounds index " ++
        MultiIndex.text index ++ "."
  | .duplicate element index =>
      "Element " ++ toString element ++ " produced index " ++ MultiIndex.text index ++
        " more than once."
  | .uncovered missing dimension =>
      toString missing.length ++ " of " ++ toString dimension ++
        " global indices were never produced (first missing: " ++
        (match missing with
          | [] => "None"
          | first :: _ => "Some(" ++ toString first ++ ")") ++ ")."
  | .tooLarge element size maximum =>
      "Element " ++ toString element ++ " has " ++ toString size ++
        " local degrees of freedom, but the maximum is " ++ toString maximum ++ "."

namespace Coverage

/-- What has been seen on the elements so far. -/
structure Progress where
  numLocalIndices : Nat
  maxLocalSize : Nat
  flattener : Flattener
  /-- The flat numbers that have occurred. -/
  hits : List Nat

/-- Flattens the indices of one element; `seen` has the flat numbers before them. -/
def visitIndices (dimension element : Nat) : (indices : List MultiIndex) →
    (seen : Std.TreeSet Nat) → Flattener → Except (Failure CoverageError) (Std.TreeSet Nat × Flattener)
  | [], seen, flattener => .ok (seen, flattener)
  | index :: rest, seen, flattener => do
      let (flat?, flattener) ← flattener.flatten index
      match flat? with
      | none => refuse (.outOfBounds element index)
      | some flat =>
          if dimension ≤ flat then refuse (.outOfBounds element index)
          else if seen.contains flat then refuse (.duplicate element index)
          else visitIndices dimension element rest (seen.insert flat) flattener

def visitElement (dimension maximum : Nat) (progress : Progress) (view : LocalView)
    (set : LocalIndexSet) : Except (Failure CoverageError) Progress := do
  let size ← set.boundSize
  if maximum < size then refuse (.tooLarge view.elementIndex size maximum)
  else do
    let numLocalIndices ← Index.add progress.numLocalIndices size
    let indices ← set.indices
    let (seen, flattener) ← visitIndices dimension view.elementIndex indices ∅ progress.flattener
    .ok ⟨numLocalIndices, max progress.maxLocalSize size, flattener, seen.toList ++ progress.hits⟩

/-- The places without a mark, in ascending order. -/
def unmarked (marks : Array Bool) : List Nat :=
  (List.range marks.size).filter (fun place => marks[place]? == some false)

/-- Checks the indices of a basis whose sizes are zero after `depth` entries. -/
def check (basis : Basis) (depth : Nat := basis.maxIndexLength) :
    Except (Failure CoverageError) Coverage := do
  let dimension ← basis.dimension
  let maximum ← basis.maxNodeSize
  let progress ← Traversal.tryForEach basis (visitElement dimension maximum)
    ⟨0, 0, .create basis depth, []⟩
  let missing := unmarked (Index.marks dimension progress.hits)
  if missing.isEmpty then .ok ⟨dimension, progress.numLocalIndices, progress.maxLocalSize⟩
  else refuse (.uncovered missing dimension)

end Coverage

end DofNumbering
