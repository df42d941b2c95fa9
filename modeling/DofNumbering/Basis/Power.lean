import DofNumbering.Basis

namespace DofNumbering

/-! Powers: a number of copies of one basis, such as the components of a vector
field.

With `n` copies of a child and the child index `c`, copy `k` has the index
`k :: c` if blocked lexicographically, `c ++ [k]` if blocked interleaved, and else
`c` with the first entry changed to `k * childSize + c[0]` or, interleaved, to
`c[0] * n + k`.
-/

structure PowerBasis where
  merging : Merging
  exponent : Nat
  child : Basis

namespace PowerBasis

def dimension (basis : PowerBasis) : Except Fault Nat := do
  let childDimension ← basis.child.dimension
  Index.mul basis.exponent childDimension

def maxNodeSize (basis : PowerBasis) : Except Fault Nat := do
  let childSize ← basis.child.maxNodeSize
  Index.mul basis.exponent childSize

/-- The size if the child number is the first entry. -/
def blockedSize (basis : PowerBasis) : List Nat → Except Fault Nat
  | [] => .ok basis.exponent
  | child :: rest =>
      if child < basis.exponent then basis.child.size rest
      else .error (.powerChild child basis.exponent)

/-- The size if the child number is the last entry: after a whole index of the
child, it is the next one. -/
def blockedInterleavedSize (basis : PowerBasis) (stem : List Nat) : Except Fault Nat := do
  let childSize ← basis.child.size stem
  if 0 < childSize ∨ stem = [] then .ok childSize
  else do
    let lastSize ← basis.child.size stem.dropLast
    .ok (if 0 < lastSize then basis.exponent else 0)

/-- The size if the child number is folded into the first entry. -/
def flatSize (basis : PowerBasis) (childFirst : (first childSize : Nat) → Except Fault Nat)
    (stem : List Nat) : Except Fault Nat := do
  let childSize ← basis.child.size []
  match stem with
  | [] => Index.mul basis.exponent childSize
  | first :: rest =>
      if childSize = 0 then .ok 0
      else do
        let first ← childFirst first childSize
        basis.child.size (first :: rest)

def size (basis : PowerBasis) (stem : List Nat) : Except Fault Nat :=
  match basis.merging with
  | ⟨true, .lexicographic⟩ => basis.blockedSize stem
  | ⟨true, .interleaved⟩ => basis.blockedInterleavedSize stem
  | ⟨false, .lexicographic⟩ => basis.flatSize Index.mod stem
  | ⟨false, .interleaved⟩ => basis.flatSize (fun first _ => Index.div first basis.exponent) stem

def container (basis : PowerBasis) : Except Fault Descriptor := do
  let child ← basis.child.container
  match basis.merging with
  | ⟨true, .lexicographic⟩ => .ok (Descriptor.uniformArray basis.exponent child)
  | ⟨true, .interleaved⟩ =>
      if child.isFlat then
        .ok (Descriptor.uniformVector child.size (Descriptor.flatArray basis.exponent))
      else .ok .unknown
  | ⟨false, _⟩ =>
      if child.isFlat then do
        let size ← Index.mul basis.exponent child.size
        .ok (Descriptor.flatVector size)
      else .ok .unknown

/-- The index of the power for an index of one of its copies. -/
def mergeIndex (basis : PowerBasis) (childSize child : Nat) (index : MultiIndex) :
    Except Fault MultiIndex :=
  match basis.merging with
  | ⟨true, .lexicographic⟩ => .ok (MultiIndex.pushFront child index)
  | ⟨true, .interleaved⟩ => .ok (MultiIndex.push child index)
  | ⟨false, .lexicographic⟩ => do
      let shift ← Index.mul child childSize
      MultiIndex.addToEntry 0 shift index
  | ⟨false, .interleaved⟩ => do
      let first ← Index.entry index 0
      let scaled ← Index.mul first basis.exponent
      let merged ← Index.add scaled child
      .ok (index.set 0 merged)

/-- The place of a copy in the local numbering of a power that is bound at the
given offset and stride. -/
def place (basis : PowerBasis) (offset stride : Nat) (child size : Nat) :
    Except Fault (Nat × Nat) :=
  match basis.merging.layout with
  | .interleaved => do
      let distance ← Index.mul child stride
      let childOffset ← Index.add offset distance
      let childStride ← Index.mul basis.exponent stride
      .ok (childOffset, childStride)
  | .lexicographic => do
      let distance ← Index.mul size stride
      let childOffset ← Index.add offset distance
      .ok (childOffset, stride)

def bindNode (basis : PowerBasis) (node : LocalNode) (element offset stride : Nat) :
    Except Fault LocalNode := do
  let children ← node.expectPower
  let (bound, size) ← Basis.bindChildren (basis.place offset stride)
    (fun _ child => basis.child.bindNode child element) 0 0 children
  .ok (.inner .power bound size)

def indices (basis : PowerBasis) (node : LocalNode) : Change Buffer Unit := do
  let children ← node.expectPower
  let childSize ← basis.child.size []
  Basis.writeChildren (fun _ => basis.child.indices)
    (fun child => .ok (basis.mergeIndex childSize child)) 0 children

def toBasis (basis : PowerBasis) : Basis where
  tag := 0
  grid := basis.child.grid
  maxIndexLength := basis.child.maxIndexLength + basis.merging.blocked.toNat
  dimension := basis.dimension
  size := basis.size
  maxNodeSize := basis.maxNodeSize
  container := basis.container
  description := .power basis.child.description basis.exponent basis.merging
  createNode := .unboundPower (List.replicate basis.exponent basis.child.createNode)
  bindNode := basis.bindNode
  indices := basis.indices

end PowerBasis

end DofNumbering
