import DofNumbering.Proofs.Built

namespace DofNumbering.Sample

/-! Small meshes, a nested basis and very large ones. -/

def triangle : TriangleMesh Nat := ⟨[⟨0, 0⟩, ⟨1, 0⟩, ⟨0, 1⟩], [⟨0, 1, 2⟩]⟩

def triangleView : MeshView Nat Triangle where
  mesh := triangle
  cells := #[⟨0, 1, 2⟩]
  cellFaces := #[[0, 1, 2]]
  numFaces := 3
  vertexLabels := #[some 0, some 1, some 2]
  numVertices := 3

theorem triangle_viewed : MeshView.ofMesh triangle = .ok triangleView := rfl

/-- Triangles of which only the first refers to three vertices of a mesh that has no more. -/
def stray : List Triangle := [⟨0, 1, 2⟩, ⟨2, 7, 9⟩, ⟨8, 0, 1⟩]

/-- Two triangles that share an edge; no cell refers to vertex 1. -/
def square : TriangleMesh Nat :=
  ⟨[⟨0, 0⟩, ⟨5, 5⟩, ⟨1, 0⟩, ⟨0, 1⟩, ⟨1, 1⟩], [⟨0, 2, 3⟩, ⟨2, 4, 3⟩]⟩

def squareView : MeshView Nat Triangle where
  mesh := square
  cells := #[⟨0, 2, 3⟩, ⟨2, 4, 3⟩]
  cellFaces := #[[0, 1, 2], [3, 4, 1]]
  numFaces := 5
  vertexLabels := #[some 0, none, some 1, some 2, some 3]
  numVertices := 4

theorem square_viewed : MeshView.ofMesh square = .ok squareView := rfl

theorem square_distinct : square.Distinct := by decide

/-- A cell that repeats a vertex, another one that shares two of its edges, and the first again. -/
def folded : QuadMesh Nat :=
  ⟨[⟨0, 0⟩, ⟨1, 0⟩, ⟨0, 1⟩, ⟨2, 2⟩], [⟨0, 1, 2, 2⟩, ⟨2, 1, 3, 0⟩, ⟨0, 1, 2, 2⟩]⟩

def foldedView : MeshView Nat Quadrilateral where
  mesh := folded
  cells := #[⟨0, 1, 2, 2⟩, ⟨2, 1, 3, 0⟩, ⟨0, 1, 2, 2⟩]
  cellFaces := #[[0, 1, 2, 3], [1, 4, 5, 3], [0, 1, 2, 3]]
  numFaces := 6
  vertexLabels := #[some 0, some 1, some 2, some 3]
  numVertices := 4

theorem folded_viewed : MeshView.ofMesh folded = .ok foldedView := rfl

/-- Two segments with a common end; no cell refers to the first, the third or the last vertex. -/
def chain : Mesh Nat Segment :=
  ⟨[⟨0, 0⟩, ⟨1, 0⟩, ⟨2, 0⟩, ⟨3, 0⟩, ⟨4, 0⟩, ⟨5, 0⟩], [⟨4, 1⟩, ⟨1, 3⟩]⟩

def chainView : MeshView Nat Segment where
  mesh := chain
  cells := #[⟨4, 1⟩, ⟨1, 3⟩]
  cellFaces := #[[], []]
  numFaces := 0
  vertexLabels := #[none, some 0, none, some 1, some 2, none]
  numVertices := 3

theorem chain_viewed : MeshView.ofMesh chain = .ok chainView := rfl

def linear : LagrangeBasis := ⟨squareView.toGridView 0, .linear, 4⟩

theorem linear_created : LagrangeBasis.create (squareView.toGridView 0) 1 = .ok linear := rfl

def quadratic : LagrangeBasis := ⟨squareView.toGridView 0, .quadratic, 9⟩

theorem quadratic_created : LagrangeBasis.create (squareView.toGridView 0) 2 = .ok quadratic := rfl

/-- Two blocked copies of a linear basis and a quadratic basis, numbered through. -/
def pair : CompositeBasis where
  blocked := false
  members := ⟨PowerBasis.toBasis ⟨.blockedInterleaved, 2, linear.toBasis⟩, [quadratic.toBasis]⟩

theorem pair_members_built :
    ∀ member ∈ pair.members.toList, Built (squareView.toGridView 0) 1 member := by
  intro member inMembers
  rcases List.mem_cons.mp inMembers with rfl | inRest
  · exact .power _ _ (by decide) (.lagrange linear_created)
  · obtain rfl := List.mem_singleton.mp inRest
    exact .lagrange quadratic_created

theorem pair_created : CompositeBasis.create false pair.members = .ok pair := rfl

theorem pair_built : Built (squareView.toGridView 0) 1 pair.toBasis :=
  .composite pair_created pair_members_built

theorem pair_dimension : pair.toBasis.dimension = .ok 17 := rfl

/-- Two blocked copies of a quadratic basis and a linear basis, blocked again. -/
def flow : CompositeBasis where
  blocked := true
  members := ⟨PowerBasis.toBasis ⟨.blockedLexicographic, 2, quadratic.toBasis⟩, [linear.toBasis]⟩

theorem flow_built : Built (squareView.toGridView 0) 1 flow.toBasis := by
  refine @Built.composite _ _ true flow.members flow rfl (fun member inMembers => ?_)
  rcases List.mem_cons.mp inMembers with rfl | inRest
  · exact .power _ _ (by decide) (.lagrange quadratic_created)
  · obtain rfl := List.mem_singleton.mp inRest
    exact .lagrange linear_created

def corner : LagrangeBasis := ⟨triangleView.toGridView 0, .linear, 3⟩

theorem corner_created : LagrangeBasis.create (triangleView.toGridView 0) 1 = .ok corner := rfl

/-- Two copies of a linear basis, with the number of the copy as the last entry. -/
def doubled : Basis := PowerBasis.toBasis ⟨.blockedInterleaved, 2, corner.toBasis⟩

/-- Two copies of that, numbered through. -/
def wrapped : Basis := PowerBasis.toBasis ⟨.flatLexicographic, 2, doubled⟩

/-- No copies of a linear basis, which would take turns. -/
def vacant : Basis := PowerBasis.toBasis ⟨.flatInterleaved, 0, corner.toBasis⟩

/-- Powers of a basis with seven copies, inside of each other. -/
def tower (basis : Basis) : Nat → Basis
  | 0 => basis
  | height + 1 => PowerBasis.toBasis ⟨.flatLexicographic, 7, tower basis height⟩

theorem tower_built {grid : GridView} {basis : Basis} (built : Built grid 1 basis) (height : Nat) :
    Built grid 1 (tower basis height) := by
  induction height with
  | zero => exact built
  | succ height ih => exact .power _ _ (by decide) ih

/-- Powers without copies of a very large basis, and one without copies of a small one. -/
def empties : CompositeBasis where
  blocked := false
  members :=
    ⟨PowerBasis.toBasis ⟨.blockedInterleaved, 0, tower corner.toBasis 22⟩,
      [PowerBasis.toBasis ⟨.blockedInterleaved, 0, tower corner.toBasis 22⟩,
        PowerBasis.toBasis ⟨.blockedLexicographic, 0, corner.toBasis⟩]⟩

theorem empties_built : Built (triangleView.toGridView 0) 0 empties.toBasis := by
  refine @Built.composite _ _ false empties.members empties rfl (fun member inMembers => ?_)
  have large : Built (triangleView.toGridView 0) 0
      (PowerBasis.toBasis ⟨.blockedInterleaved, 0, tower corner.toBasis 22⟩) :=
    .power _ 0 (Nat.le_refl 0) ((tower_built (.lagrange corner_created) 22).mono (Nat.zero_le 1))
  rcases List.mem_cons.mp inMembers with rfl | inRest
  · exact large
  · rcases List.mem_cons.mp inRest with rfl | inLast
    · exact large
    · obtain rfl := List.mem_singleton.mp inLast
      exact .power _ 0 (Nat.le_refl 0) (.lagrange corner_created)

/-- The same in front of a linear basis, blocked. -/
def blockedEmpties : CompositeBasis where
  blocked := true
  members := ⟨empties.toBasis, [corner.toBasis]⟩

theorem blockedEmpties_built : Built (triangleView.toGridView 0) 0 blockedEmpties.toBasis := by
  refine @Built.composite _ _ true blockedEmpties.members blockedEmpties rfl ?_
  exact List.forall_mem_cons.mpr ⟨empties_built,
    List.forall_mem_singleton.mpr (.lagrange corner_created)⟩

/-- No copies of powers inside of each other: their size is all there is of them. -/
def absent (exponents : List Nat) (basis : Basis) : Basis :=
  PowerBasis.toBasis ⟨.blockedInterleaved, 0,
    exponents.foldr (fun exponent child => PowerBasis.toBasis ⟨.flatLexicographic, exponent, child⟩)
      basis⟩

theorem absent_built {grid : GridView} (exponents : List Nat) {basis : Basis}
    (built : Built grid 0 basis) : Built grid 0 (absent exponents basis) := by
  refine .power _ 0 (Nat.le_refl 0) ?_
  induction exponents with
  | nil => exact built
  | cons exponent _ ih => exact .power _ exponent (Nat.zero_le exponent) ih

/-- A quadratic basis behind so many sizes that its last indices are no longer below the limit. -/
def brink : CompositeBasis where
  blocked := false
  members :=
    ⟨absent (List.replicate 11 5 ++ List.replicate 2 7) quadratic.toBasis,
      [absent (2 :: List.replicate 5 4 ++ List.replicate 13 3 ++ 5 :: List.replicate 10 7)
          linear.toBasis,
        absent (2 :: List.replicate 7 4 ++ List.replicate 10 3 ++ List.replicate 5 7)
          linear.toBasis,
        absent (2 :: List.replicate 5 4 ++ List.replicate 6 3) linear.toBasis,
        absent (List.replicate 3 3 ++ List.replicate 5 5 ++ List.replicate 3 7) linear.toBasis,
        quadratic.toBasis]⟩

theorem brink_built : Built (squareView.toGridView 0) 0 brink.toBasis := by
  refine @Built.composite _ _ false brink.members brink rfl ?_
  have absent (exponents : List Nat) : Built (squareView.toGridView 0) 0
      (absent exponents linear.toBasis) := absent_built exponents (.lagrange linear_created)
  exact List.forall_mem_cons.mpr ⟨absent_built _ (.lagrange quadratic_created),
    List.forall_mem_cons.mpr ⟨absent _, List.forall_mem_cons.mpr ⟨absent _,
      List.forall_mem_cons.mpr ⟨absent _, List.forall_mem_cons.mpr ⟨absent _,
        List.forall_mem_singleton.mpr (.lagrange quadratic_created)⟩⟩⟩⟩⟩

end DofNumbering.Sample
