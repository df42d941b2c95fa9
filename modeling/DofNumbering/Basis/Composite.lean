import DofNumbering.Basis
import DofNumbering.Refusal

namespace DofNumbering

/-! Composites: a list of distinct bases on one grid view, such as the velocity
and the pressure of a flow.

With the child index `c`, child `k` has the index `k :: c` if blocked, and else `c`
with the sizes of the children before it added to the first entry.
-/

/-- The children of a composite; there is at least one. -/
structure Members where
  first : Basis
  rest : List Basis

namespace Members

def ofList? : List Basis → Option Members
  | [] => none
  | first :: rest => some ⟨first, rest⟩

def toList (members : Members) : List Basis := members.first :: members.rest

def count (members : Members) : Nat := members.toList.length

/-- The grid view of the first child. -/
def grid (members : Members) : GridView := members.first.grid

def member (members : Members) (child : Nat) : Except Fault Basis :=
  match members.toList[child]? with
  | some basis => .ok basis
  | none => .error (.memberOfComposite child members.count)

/-- The first child, if any, that lives on another grid view than the first one. -/
def foreign? (members : Members) : Option Nat :=
  members.toList.findIdx? (fun basis => basis.grid.tag != members.grid.tag)

def checkGridViews (members : Members) : Except Refusal Unit :=
  match members.foreign? with
  | some child => .error (.mismatchedGridViews child)
  | none => .ok ()

end Members

structure CompositeBasis where
  blocked : Bool
  members : Members

namespace CompositeBasis

def create (blocked : Bool) (members : Members) : Except Refusal CompositeBasis := do
  members.checkGridViews
  .ok ⟨blocked, members⟩

def dimension (basis : CompositeBasis) : Except Fault Nat :=
  Index.sumOver Basis.dimension basis.members.toList

def maxNodeSize (basis : CompositeBasis) : Except Fault Nat :=
  Index.sumOver Basis.maxNodeSize basis.members.toList

/-- The size after the entries `first :: rest`, where the numbers of the given
bases follow each other from `offset` on. -/
def flatSize (first : Nat) (rest : List Nat) : (offset : Nat) → List Basis → Except Fault Nat
  | _, [] => .ok 0
  | offset, member :: others => do
      let memberSize ← member.size []
      let past ← Index.add offset memberSize
      if first < past then member.size ((first - offset) :: rest)
      else flatSize first rest past others

def size (basis : CompositeBasis) (stem : List Nat) : Except Fault Nat :=
  match basis.blocked, stem with
  | true, [] => .ok basis.members.count
  | true, child :: rest =>
      if child < basis.members.count then do
        let member ← basis.members.member child
        member.size rest
      else .error (.compositeChild child)
  | false, [] => Index.sumOver (fun member => member.size []) basis.members.toList
  | false, first :: rest => flatSize first rest 0 basis.members.toList

def container (basis : CompositeBasis) : Except Fault Descriptor := do
  let children ← basis.members.toList.mapM Basis.container
  if basis.blocked then .ok (Descriptor.ofChildren children)
  else if children.all Descriptor.isFlat then do
    let size ← Index.sumOver (fun child => .ok child.size) children
    .ok (Descriptor.flatVector size)
  else .ok .unknown

/-- The first number of a child in a flat numbering. -/
def rootOffset (basis : CompositeBasis) (child : Nat) : Except Fault Nat :=
  Index.sumOver (fun member => member.size []) (basis.members.toList.take child)

/-- Turns the indices of a child into indices of the composite. -/
def merge (basis : CompositeBasis) (child : Nat) :
    Except Fault (MultiIndex → Except Fault MultiIndex) :=
  if basis.blocked then .ok (fun index => .ok (MultiIndex.pushFront child index))
  else do
    let shift ← basis.rootOffset child
    .ok (MultiIndex.addToEntry 0 shift)

/-- A child is placed behind the children before it. -/
def place (offset stride : Nat) (_child size : Nat) : Except Fault (Nat × Nat) := do
  let distance ← Index.mul size stride
  let childOffset ← Index.add offset distance
  .ok (childOffset, stride)

def bindNode (basis : CompositeBasis) (node : LocalNode) (element offset stride : Nat) :
    Except Fault LocalNode := do
  let children ← node.expectComposite
  let (bound, size) ← Basis.bindChildren (place offset stride)
    (fun child node offset stride => do
      let member ← basis.members.member child
      member.bindNode node element offset stride) 0 0 children
  .ok (.inner .composite bound size)

def indices (basis : CompositeBasis) (node : LocalNode) : Change Buffer Unit := do
  let children ← node.expectComposite
  Basis.writeChildren
    (fun child node => do
      let member ← basis.members.member child
      member.indices node)
    basis.merge 0 children

def toBasis (basis : CompositeBasis) : Basis where
  tag := 0
  grid := basis.members.grid
  maxIndexLength :=
    (basis.members.toList.map Basis.maxIndexLength).foldl max 0 + basis.blocked.toNat
  dimension := basis.dimension
  size := basis.size
  maxNodeSize := basis.maxNodeSize
  container := basis.container
  description :=
    .composite (basis.members.toList.map Basis.description) ⟨basis.blocked, .lexicographic⟩
  createNode := .unboundComposite (basis.members.toList.map Basis.createNode)
  bindNode := basis.bindNode
  indices := basis.indices

end CompositeBasis

end DofNumbering
