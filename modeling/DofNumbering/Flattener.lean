import DofNumbering.Basis
import Std.Data.TreeMap

namespace DofNumbering

/-! Flattening of multi-indices.

The flat number of an index is the number of whole indices before it in the
lexicographic order.  The numbers of whole indices in the blocks below a stem are
counted once and kept.
-/

/-- By stem, the flat offsets of the blocks below it: entry `i` counts the whole
indices in the blocks before block `i`, and the last entry those in all blocks. -/
abbrev Offsets := Std.TreeMap MultiIndex (Array Nat) MultiIndex.compare

structure Flattener where
  basis : Basis
  /-- A bound on the number of entries after which the sizes are zero. -/
  depth : Nat
  offsets : Offsets

namespace Flattener

def create (basis : Basis) (depth : Nat := basis.maxIndexLength) : Flattener := ⟨basis, depth, ∅⟩

/-- Extends the offsets of the blocks up to block `block`, before which there are
`total` whole indices, by those of `remaining` more blocks. -/
def blockOffsets (count : Nat → Offsets → Except Fault (Nat × Offsets)) :
    (block total remaining : Nat) → Array Nat → Offsets → Except Fault (Array Nat × Offsets)
  | _, _, 0, offsets, known => .ok (offsets, known)
  | block, total, remaining + 1, offsets, known => do
      let (inBlock, known) ← count block known
      let next ← Index.add total inBlock
      blockOffsets count (block + 1) next remaining (offsets.push next) known

/-- The number of whole indices that begin with a stem. -/
def wholeIndices (basis : Basis)
    (below : MultiIndex → Offsets → Except Fault (Array Nat × Offsets))
    (stem : MultiIndex) (known : Offsets) : Except Fault (Nat × Offsets) := do
  let size ← basis.size stem
  if size = 0 then .ok (1, known)
  else do
    let (offsets, known) ← below stem known
    .ok (offsets.back?.getD 0, known)

/-- The offsets of the blocks below a stem, which are at most `depth` deep.  There is one
more of them than blocks, and their number has to be an index. -/
def offsetsBelow (basis : Basis) : (depth : Nat) → (stem : MultiIndex) → Offsets →
    Except Fault (Array Nat × Offsets)
  | 0, stem, known =>
      match known.get? stem with
      | some offsets => .ok (offsets, known)
      | none => do
          let size ← basis.size stem
          if size = 0 then .ok (#[0], known.insert stem #[0]) else .error .unboundedDepth
  | depth + 1, stem, known =>
      match known.get? stem with
      | some offsets => .ok (offsets, known)
      | none => do
          let size ← basis.size stem
          let _ ← Index.add size 1
          let (offsets, known) ← blockOffsets
            (fun block => wholeIndices basis (offsetsBelow basis depth) (stem ++ [block]))
            0 0 size #[0] known
          .ok (offsets, known.insert stem offsets)

/-- Adds the offsets of the blocks that the remaining entries select. -/
def flattenFrom (basis : Basis) (depth : Nat) : (stem rest : MultiIndex) → (flat : Nat) → Offsets →
    Except Fault (Option Nat × Offsets)
  | stem, [], flat, known => do
      let size ← basis.size stem
      .ok (if size = 0 then some flat else none, known)
  | stem, entry :: rest, flat, known => do
      let (offsets, known) ← offsetsBelow basis depth stem known
      let next ← Index.add entry 1
      if offsets.size ≤ next then .ok (none, known)
      else do
        let offset ← Index.lookUp offsets entry
        let sum ← Index.add flat offset
        flattenFrom basis depth (stem ++ [entry]) rest sum known

/-- The flat number of an index, if it is the index of a degree of freedom. -/
def flatten (flattener : Flattener) (index : MultiIndex) :
    Except Fault (Option Nat × Flattener) := do
  let (flat, offsets) ←
    flattenFrom flattener.basis flattener.depth [] index 0 flattener.offsets
  .ok (flat, { flattener with offsets })

/-- Flattens one index after the other, each with what is known from those before,
up to the first fault. -/
def flattenAll (flattener : Flattener) : List MultiIndex → Except Fault (List (Option Nat))
  | [] => .ok []
  | index :: rest => do
      let (flat, next) ← flattener.flatten index
      let others ← next.flattenAll rest
      .ok (flat :: others)

end Flattener

/-- The flat number of an index, counted anew. -/
def Basis.flattenIndex (basis : Basis) (index : MultiIndex) : Except Fault (Option Nat) := do
  let (flat, _) ← (Flattener.create basis).flatten index
  .ok flat

end DofNumbering
