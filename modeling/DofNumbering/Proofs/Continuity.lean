import DofNumbering.Proofs.Basis.Lagrange
import DofNumbering.Proofs.Grid.FaceNumbers
import Mathlib.Algebra.Field.Rat
import Mathlib.Tactic.NormNum
import Mathlib.Tactic.Ring

namespace DofNumbering

/-! Finite element functions are continuous, in exact arithmetic.

On an edge of an element only the shape functions of its two ends and, for order 2, that of
its midpoint differ from zero.  Elements that share the edge give these the same numbers,
so a function has the same values on the edge in each of them, whichever way round they
run through it.
-/

/-- The mesh vertex at a corner. -/
def Triangle.vertex (cell : Triangle) : Fin 3 → Nat
  | 0 => cell.first
  | 1 => cell.second
  | 2 => cell.third

/-- The point at a corner. -/
def LinearTriangle.vertex {R : Type} (triangle : LinearTriangle R) : Fin 3 → Point R
  | 0 => triangle.first
  | 1 => triangle.second
  | 2 => triangle.third

/-- The point of the reference triangle with weight `1 - t` at corner `a` and weight `t` at
corner `b`. -/
def edgePoint (a b : Fin 3) (t : ℚ) : Point ℚ :=
  (LinearTriangle.reference.vertex a).scale (1 - t) + (LinearTriangle.reference.vertex b).scale t

/-- The face of a triangle between two of its corners. -/
def faceBetween (a b : Fin 3) : Fin 3 := if b = a + 1 then a else b

/-- The value of the function with the given coefficients at reference coordinates of an
element. -/
def LagrangeBasis.valueAt (basis : LagrangeBasis) (coefficients : List ℚ) (element : Nat)
    (point : Point ℚ) : Except Fault ℚ := do
  let values ← basis.finite.fillValues basis.finite.size point
  let terms ← values.zipIdx.mapM (fun (value, j) => do
    let number ← basis.globalIndex element j
    let coefficient ← Index.entry coefficients number
    .ok (coefficient * value))
  .ok terms.sum

/-- What the node of a shape function lies on. -/
inductive Site where
  | vertex (vertex : Nat)
  | midpoint (ends : Sym2 Nat)

/-- The node of shape function `j` of a cell, by the mesh vertices that it lies on or between. -/
inductive LagrangeElement.NodeAt (finite : LagrangeElement) (cell : Triangle) (j : Nat) :
    Site → Prop
  | vertex (a : Fin 3) :
      finite.nodes[j]? = some ((LinearTriangle.reference (R := ℚ)).vertex a) →
      NodeAt finite cell j (.vertex (cell.vertex a))
  | midpoint (a b : Fin 3) : a ≠ b →
      finite.nodes[j]? = some (QuadraticTriangle.midpoint
        ((LinearTriangle.reference (R := ℚ)).vertex a) (LinearTriangle.reference.vertex b)) →
      NodeAt finite cell j (.midpoint s(cell.vertex a, cell.vertex b))

section Reference

variable {a b : Fin 3} {t : ℚ}

theorem edge_cases (different : a ≠ b) :
    (a = 0 ∧ b = 1) ∨ (a = 0 ∧ b = 2) ∨ (a = 1 ∧ b = 0) ∨ (a = 1 ∧ b = 2) ∨ (a = 2 ∧ b = 0) ∨
      (a = 2 ∧ b = 1) := by
  decide +revert

theorem corner_ne_next (i : Fin 3) : i ≠ i + 1 := by
  decide +revert

/-- The weight of corner `i` at a point of an edge. -/
def edgeWeight (a b : Fin 3) (t : ℚ) (i : Fin 3) : ℚ :=
  if i = a then 1 - t else if i = b then t else 0

theorem Shape.half_eq {K : Type} [Field K] : Shape.half K = 1 / 2 := by norm_num [Shape.half]

theorem Point.add_eq {R : Type} [Add R] (p q : Point R) : p + q = ⟨p.x + q.x, p.y + q.y⟩ := rfl

theorem barycentric_edgePoint (different : a ≠ b) :
    Shape.barycentric (edgePoint a b t) =
      ⟨edgeWeight a b t 0, edgeWeight a b t 1, edgeWeight a b t 2⟩ := by
  simp only [Shape.barycentric, Shape.half_eq, edgePoint, Point.add_eq, Point.scale,
    LinearTriangle.reference, Shape.Barycentric.mk.injEq, edgeWeight, Nat.cast_one]
  rcases edge_cases different with
    ⟨rfl, rfl⟩ | ⟨rfl, rfl⟩ | ⟨rfl, rfl⟩ | ⟨rfl, rfl⟩ | ⟨rfl, rfl⟩ | ⟨rfl, rfl⟩ <;>
    simp only [LinearTriangle.vertex] <;> refine ⟨?_, ?_, ?_⟩ <;> simp <;> ring

/-- Edges are mapped to edges, with the same weights. -/
theorem LinearTriangle.map_edgePoint (triangle : LinearTriangle ℚ) (different : a ≠ b) :
    triangle.map (edgePoint a b t) =
      (triangle.vertex a).scale (1 - t) + (triangle.vertex b).scale t := by
  rw [map, barycentric_edgePoint different, Point.add_eq]
  rcases edge_cases different with
    ⟨rfl, rfl⟩ | ⟨rfl, rfl⟩ | ⟨rfl, rfl⟩ | ⟨rfl, rfl⟩ | ⟨rfl, rfl⟩ | ⟨rfl, rfl⟩ <;>
    simp [weightedSum, xCoordinates, yCoordinates, edgeWeight, vertex, Point.scale, add_comm]

/-- The value at a point of an edge, by the coefficients at its two ends and its midpoint. -/
def onEdge (finite : LagrangeElement) (first second middle t : ℚ) : ℚ :=
  match finite with
  | .linear => first * (1 - t) + second * t
  | .quadratic => first * Shape.atCorner (1 - t) + second * Shape.atCorner t +
      middle * Shape.atMidpoint (1 - t) t

/-- The shape functions of the corner and of the edges away from an edge vanish there. -/
theorem sum_values_edgePoint (finite : LagrangeElement) (coefficient : Nat → ℚ)
    (different : a ≠ b) :
    ((finite.values (edgePoint a b t)).zipIdx.map (fun (value, j) => coefficient j * value)).sum =
      onEdge finite (coefficient a) (coefficient b) (coefficient (3 + faceBetween a b)) t := by
  cases finite with
  | linear =>
      simp only [LagrangeElement.values, Shape.linear, barycentric_edgePoint different, onEdge]
      rcases edge_cases different with
        ⟨rfl, rfl⟩ | ⟨rfl, rfl⟩ | ⟨rfl, rfl⟩ | ⟨rfl, rfl⟩ | ⟨rfl, rfl⟩ | ⟨rfl, rfl⟩ <;>
        simp [edgeWeight] <;> ring
  | quadratic =>
      simp only [LagrangeElement.values, Shape.quadratic, barycentric_edgePoint different, onEdge]
      rcases edge_cases different with
        ⟨rfl, rfl⟩ | ⟨rfl, rfl⟩ | ⟨rfl, rfl⟩ | ⟨rfl, rfl⟩ | ⟨rfl, rfl⟩ | ⟨rfl, rfl⟩ <;>
        simp [edgeWeight, faceBetween, Shape.atCorner, Shape.atMidpoint] <;> ring

theorem Triangle.getElem?_vertices (cell : Triangle) (a : Fin 3) :
    (Cell.vertices cell)[(a : Nat)]? = some (cell.vertex a) :=
  match a with
  | 0 => rfl
  | 1 => rfl
  | 2 => rfl

/-- The face between two corners joins the two mesh vertices there. -/
theorem Triangle.exists_faceBetween (cell : Triangle) (different : a ≠ b) :
    ∃ face, (Cell.faces cell)[(faceBetween a b : Nat)]? = some face ∧
      s(face.first, face.second) = s(cell.vertex a, cell.vertex b) := by
  rcases edge_cases different with
    ⟨rfl, rfl⟩ | ⟨rfl, rfl⟩ | ⟨rfl, rfl⟩ | ⟨rfl, rfl⟩ | ⟨rfl, rfl⟩ | ⟨rfl, rfl⟩
  · exact ⟨⟨cell.first, cell.second⟩, rfl, rfl⟩
  · exact ⟨⟨cell.third, cell.first⟩, rfl, Sym2.eq_swap⟩
  · exact ⟨⟨cell.first, cell.second⟩, rfl, Sym2.eq_swap⟩
  · exact ⟨⟨cell.second, cell.third⟩, rfl, rfl⟩
  · exact ⟨⟨cell.third, cell.first⟩, rfl, rfl⟩
  · exact ⟨⟨cell.second, cell.third⟩, rfl, Sym2.eq_swap⟩

theorem LagrangeElement.nodeAt_vertex (finite : LagrangeElement) (cell : Triangle) (a : Fin 3) :
    finite.NodeAt cell a (.vertex (cell.vertex a)) := by
  refine .vertex a ?_
  cases finite <;> match a with
    | 0 => rfl
    | 1 => rfl
    | 2 => rfl

theorem LagrangeElement.nodeAt_midpoint (cell : Triangle) (i : Fin 3) :
    LagrangeElement.quadratic.NodeAt cell (3 + i) (.midpoint s(cell.vertex i, cell.vertex (i + 1))) := by
  refine .midpoint i (i + 1) (corner_ne_next i) ?_
  match i with
  | 0 => rfl
  | 1 => rfl
  | 2 => rfl

end Reference

section Value

variable {basis : LagrangeBasis} {coefficients : List ℚ} {element : Nat}

theorem LagrangeElement.length_values (finite : LagrangeElement) (point : Point ℚ) :
    (finite.values point).length = finite.size := by
  cases finite <;> rfl

theorem LagrangeElement.fillValues_eq_ok (finite : LagrangeElement) (point : Point ℚ) :
    finite.fillValues finite.size point = .ok (finite.values point) := by
  rw [fillValues, Shape.fill, if_pos (finite.length_values point).symm]

/-- The coefficient of a shape function of an element. -/
def LagrangeBasis.coefficient (basis : LagrangeBasis) (coefficients : List ℚ) (element j : Nat) : ℚ :=
  coefficients[basis.number element j]?.getD 0

theorem LagrangeBasis.valueAt_eq_ok (triangle : basis.grid.HasTriangle element)
    (counted : dofCount basis.grid basis.finite = .ok basis.dimension)
    (sized : coefficients.length = basis.dimension) (point : Point ℚ) :
    basis.valueAt coefficients element point =
      .ok ((basis.finite.values point).zipIdx.map
        (fun (value, j) => basis.coefficient coefficients element j * value)).sum := by
  have each : ∀ item ∈ (basis.finite.values point).zipIdx, (do
      let number ← basis.globalIndex element item.2
      let coefficient ← Index.entry coefficients number
      .ok (coefficient * item.1)) =
      (.ok (basis.coefficient coefficients element item.2 * item.1) : Except Fault ℚ) := by
    rintro ⟨value, j⟩ inValues
    have below : j < basis.finite.size := by
      have inRange := (List.mem_zipIdx inValues).2.1
      rwa [Nat.zero_add, basis.finite.length_values] at inRange
    obtain ⟨found, inDimension⟩ := globalIndex_eq_ok triangle counted below
    have entry : Index.entry coefficients (basis.number element j) =
        .ok (basis.coefficient coefficients element j) := by
      rw [Index.entry_eq_ok_iff, coefficient, List.getElem?_eq_getElem (sized ▸ inDimension)]
      rfl
    rw [found, ok_bind, entry, ok_bind]
  rw [valueAt, basis.finite.fillValues_eq_ok, ok_bind]
  exact (congrArg (· >>= fun terms => Except.ok terms.sum) (mapM_eq_ok each))

end Value

section Mesh

variable {R : Type} {mesh : TriangleMesh R} {view : MeshView R Triangle} {basis : LagrangeBasis}
  {element element' tag order : Nat} {cell cell' : Triangle} {a b a' b' : Fin 3}

theorem MeshView.mesh_eq (viewed : ofMesh mesh = .ok view) : view.mesh = mesh := by
  by_cases inBounds : mesh.cells.all
      (fun cell => (Cell.vertices cell).all (· < mesh.vertices.length)) = true
  · obtain rfl := Except.ok.inj ((if_pos inBounds).symm.trans viewed)
    rfl
  · exact absurd ((if_neg inBounds).symm.trans viewed) nofun

/-- An element has its corners at the mesh vertices of its cell. -/
theorem MeshView.exists_element (viewed : ofMesh mesh = .ok view)
    (found : mesh.cells[element]? = some cell) :
    ∃ triangle, view.element? element = some triangle ∧
      ∀ a, mesh.vertices[cell.vertex a]? = some (triangle.vertex a) := by
  obtain ⟨inBounds, cells, -⟩ := ofMesh_eq_ok viewed
  have corner (a : Fin 3) : ∃ point, mesh.vertices[cell.vertex a]? = some point := by
    have inCell := List.mem_of_getElem? (cell.getElem?_vertices a)
    exact ⟨_, List.getElem?_eq_getElem (inBounds cell (List.mem_of_getElem? found) _ inCell)⟩
  obtain ⟨first, foundFirst⟩ := corner 0
  obtain ⟨second, foundSecond⟩ := corner 1
  obtain ⟨third, foundThird⟩ := corner 2
  have foundCell : view.cells[element]? = some cell := by rw [cells, List.getElem?_toArray, found]
  refine ⟨⟨first, second, third⟩, ?_, fun a => match a with
    | 0 => foundFirst
    | 1 => foundSecond
    | 2 => foundThird⟩
  change mesh.vertices[cell.first]? = _ at foundFirst
  change mesh.vertices[cell.second]? = _ at foundSecond
  change mesh.vertices[cell.third]? = _ at foundThird
  simp only [element?, foundCell, mesh_eq viewed, Option.bind_eq_bind, Option.bind_some, foundFirst,
    foundSecond, foundThird]

/-- The number of the shape function of a corner is that of the mesh vertex there. -/
theorem LagrangeBasis.globalIndex_corner (viewed : MeshView.ofMesh mesh = .ok view)
    (onView : basis.grid = view.toGridView tag) (found : mesh.cells[element]? = some cell)
    (a : Fin 3) :
    (MeshView.vertexMarks mesh)[cell.vertex a]? = some true ∧ basis.globalIndex element a =
      .ok (((MeshView.vertexMarks mesh).take (cell.vertex a)).count true) := by
  obtain ⟨marked, answer⟩ := MeshView.subEntity_vertex viewed found (cell.getElem?_vertices a)
  refine ⟨marked, ?_⟩
  rw [globalIndex_vertex a.isLt, onView]
  exact answer

/-- The number of the shape function of a midpoint is that of the edge behind the vertices. -/
theorem LagrangeBasis.globalIndex_midpoint (viewed : MeshView.ofMesh mesh = .ok view)
    (onView : basis.grid = view.toGridView tag) (quadratic : basis.finite = .quadratic)
    (counted : dofCount basis.grid basis.finite = .ok basis.dimension)
    (found : mesh.cells[element]? = some cell) (different : a ≠ b) :
    ∃ (face : Segment) (label : Nat), s(face.first, face.second) = s(cell.vertex a, cell.vertex b) ∧
      (MeshView.faceLabels mesh).get? face.edge = some label ∧
      basis.globalIndex element (3 + faceBetween a b) = .ok (basis.grid.size 2 + label) := by
  obtain ⟨face, foundFace, ends⟩ := cell.exists_faceBetween different
  obtain ⟨label, labelled, answer⟩ := MeshView.subEntity_face viewed found foundFace
  refine ⟨face, label, ends, labelled, ?_⟩
  obtain ⟨-, -, -, numFaces, -⟩ := MeshView.ofMesh_eq_ok viewed
  obtain ⟨known, numbers, -⟩ := MeshView.faceLabels_numbers mesh
  have inFaces : label < basis.grid.size 1 := by
    rw [onView]
    exact Nat.lt_of_lt_of_eq (numbers.bounded labelled) numFaces.symm
  rw [quadratic] at counted
  have room := (Index.add_eq_ok_iff.mp counted).1
  refine globalIndex_face quadratic (faceBetween a b).isLt ?_ (by omega)
  rw [onView]
  exact answer

theorem LagrangeBasis.number_corner_eq (viewed : MeshView.ofMesh mesh = .ok view)
    (onView : basis.grid = view.toGridView tag) (found : mesh.cells[element]? = some cell)
    (found' : mesh.cells[element']? = some cell') (same : cell.vertex a = cell'.vertex a') :
    basis.number element a = basis.number element' a' := by
  rw [number_of_globalIndex (globalIndex_corner viewed onView found a).2,
    number_of_globalIndex (globalIndex_corner viewed onView found' a').2, same]

/-- Cells that share an edge give its midpoint the same number. -/
theorem LagrangeBasis.number_midpoint_eq (viewed : MeshView.ofMesh mesh = .ok view)
    (onView : basis.grid = view.toGridView tag) (quadratic : basis.finite = .quadratic)
    (counted : dofCount basis.grid basis.finite = .ok basis.dimension)
    (found : mesh.cells[element]? = some cell) (found' : mesh.cells[element']? = some cell')
    (different : a ≠ b) (different' : a' ≠ b') (same : cell.vertex a = cell'.vertex a')
    (same' : cell.vertex b = cell'.vertex b') :
    basis.number element (3 + faceBetween a b) = basis.number element' (3 + faceBetween a' b') := by
  obtain ⟨face, label, ends, labelled, number⟩ :=
    globalIndex_midpoint viewed onView quadratic counted found different
  obtain ⟨face', label', ends', labelled', number'⟩ :=
    globalIndex_midpoint viewed onView quadratic counted found' different'
  have sameEdge : face.edge = face'.edge := by
    rw [Segment.edge_eq_iff, ends, ends', same, same']
  obtain rfl : label = label' := Option.some.inj (labelled.symm.trans (sameEdge ▸ labelled'))
  rw [number_of_globalIndex number, number_of_globalIndex number']

/-- Where the node of a shape function lies, and the number that it gets there. -/
theorem LagrangeBasis.exists_site (viewed : MeshView.ofMesh mesh = .ok view)
    (onView : basis.grid = view.toGridView tag)
    (counted : dofCount basis.grid basis.finite = .ok basis.dimension)
    (found : mesh.cells[element]? = some cell) {j number : Nat}
    (numbered : basis.globalIndex element j = .ok number) :
    (∃ vertex, basis.finite.NodeAt cell j (.vertex vertex) ∧
      (MeshView.vertexMarks mesh)[vertex]? = some true ∧
      number = ((MeshView.vertexMarks mesh).take vertex).count true ∧
      number < basis.grid.size 2) ∨
    ∃ (face : Segment) (label : Nat), basis.finite.NodeAt cell j (.midpoint s(face.first, face.second)) ∧
      (MeshView.faceLabels mesh).get? face.edge = some label ∧
      number = basis.grid.size 2 + label := by
  have below : j < basis.finite.size := by
    by_contra beyond
    rw [globalIndex, if_neg beyond] at numbered
    contradiction
  by_cases corner : j < 3
  · obtain ⟨a, rfl⟩ : ∃ a : Fin 3, j = a := ⟨⟨j, corner⟩, rfl⟩
    obtain ⟨marked, numbered'⟩ := globalIndex_corner viewed onView found a
    obtain rfl := Except.ok.inj (numbered.symm.trans numbered')
    obtain ⟨-, -, -, -, -, numVertices⟩ := MeshView.ofMesh_eq_ok viewed
    refine .inl ⟨cell.vertex a, basis.finite.nodeAt_vertex cell a, marked, rfl, ?_⟩
    rw [onView]
    exact Nat.lt_of_lt_of_eq (count_take_lt_count marked) numVertices.symm
  · have quadratic : basis.finite = .quadratic := by
      cases finite : basis.finite with
      | linear =>
          rw [finite] at below
          exact absurd below corner
      | quadratic => rfl
    have inSize : j < 6 := by rwa [quadratic] at below
    obtain ⟨i, rfl⟩ : ∃ i : Fin 3, j = 3 + i := ⟨⟨j - 3, by omega⟩, by simp; omega⟩
    have different : i ≠ i + 1 := corner_ne_next i
    obtain ⟨face, label, ends, labelled, numbered'⟩ :=
      globalIndex_midpoint viewed onView quadratic counted found different
    rw [faceBetween, if_pos rfl] at numbered'
    refine .inr ⟨face, label, ?_, labelled, Except.ok.inj (numbered.symm.trans numbered')⟩
    rw [quadratic, ends]
    exact LagrangeElement.nodeAt_midpoint cell i

end Mesh

/-- Functions of a Lagrange basis on a triangle mesh have the same values in all elements
that share an edge, at the same points of the edge.  Shape functions only share a
number if their nodes lie on the same mesh vertex or in the middle of the same edge. -/
theorem functions_are_continuous {mesh : TriangleMesh ℚ} {view : MeshView ℚ Triangle}
    {basis : LagrangeBasis} {tag order : Nat} (viewed : MeshView.ofMesh mesh = .ok view)
    (created : LagrangeBasis.create (view.toGridView tag) order = .ok basis) :
    (∀ (coefficients : List ℚ) (element element' : Nat) (cell cell' : Triangle)
      (a b a' b' : Fin 3) (t : ℚ), coefficients.length = basis.dimension →
      mesh.cells[element]? = some cell → mesh.cells[element']? = some cell' →
      a ≠ b → a' ≠ b' → cell.vertex a = cell'.vertex a' → cell.vertex b = cell'.vertex b' →
      ∃ value triangle triangle',
        basis.valueAt coefficients element (edgePoint a b t) = .ok value ∧
        basis.valueAt coefficients element' (edgePoint a' b' t) = .ok value ∧
        view.element? element = some triangle ∧ view.element? element' = some triangle' ∧
        triangle.map (edgePoint a b t) = triangle'.map (edgePoint a' b' t)) ∧
    ∀ (element element' : Nat) (cell cell' : Triangle) (j j' number : Nat),
      mesh.cells[element]? = some cell → mesh.cells[element']? = some cell' →
      basis.globalIndex element j = .ok number → basis.globalIndex element' j' = .ok number →
      ∃ site, basis.finite.NodeAt cell j site ∧ basis.finite.NodeAt cell' j' site := by
  obtain ⟨onView, counted⟩ := LagrangeBasis.create_eq_ok created
  rw [← onView] at counted
  constructor
  · intro coefficients element element' cell cell' a b a' b' t sized found found' different
      different' same same'
    obtain ⟨triangle, isElement, corners⟩ := MeshView.exists_element viewed found
    obtain ⟨triangle', isElement', corners'⟩ := MeshView.exists_element viewed found'
    have hasTriangle {element : Nat} {cell : Triangle} (found : mesh.cells[element]? = some cell) :
        basis.grid.HasTriangle element := by
      rw [onView]
      refine MeshView.hasTriangle viewed ?_
      rw [MeshView.size_zero viewed]
      exact (List.getElem?_eq_some_iff.mp found).1
    refine ⟨_, triangle, triangle',
      LagrangeBasis.valueAt_eq_ok (hasTriangle found) counted sized _, ?_, isElement, isElement', ?_⟩
    · rw [LagrangeBasis.valueAt_eq_ok (hasTriangle found') counted sized,
        sum_values_edgePoint _ _ different, sum_values_edgePoint _ _ different']
      have first := LagrangeBasis.number_corner_eq viewed onView found found' same
      have second := LagrangeBasis.number_corner_eq viewed onView found found' same'
      cases finite : basis.finite with
      | linear => simp only [onEdge, LagrangeBasis.coefficient, first, second]
      | quadratic =>
          have middle := LagrangeBasis.number_midpoint_eq viewed onView finite counted found found'
            different different' same same'
          simp only [LagrangeBasis.coefficient, first, second, middle]
    · have first : triangle.vertex a = triangle'.vertex a' :=
        Option.some.inj ((corners a).symm.trans (same ▸ corners' a'))
      have second : triangle.vertex b = triangle'.vertex b' :=
        Option.some.inj ((corners b).symm.trans (same' ▸ corners' b'))
      rw [triangle.map_edgePoint different, triangle'.map_edgePoint different', first, second]
  · intro element element' cell cell' j j' number found found' numbered numbered'
    rcases LagrangeBasis.exists_site viewed onView counted found numbered with
      ⟨vertex, node, marked, count, inVertices⟩ | ⟨face, label, node, labelled, behind⟩ <;>
    rcases LagrangeBasis.exists_site viewed onView counted found' numbered' with
      ⟨vertex', node', marked', count', inVertices'⟩ | ⟨face', label', node', labelled', behind'⟩
    · obtain rfl := count_take_injective marked marked' (count.symm.trans count')
      exact ⟨_, node, node'⟩
    · omega
    · omega
    · obtain rfl : label = label' := by omega
      obtain ⟨known, numbers, -⟩ := MeshView.faceLabels_numbers mesh
      have sameEdge := Segment.edge_eq_iff.mp (numbers.injective labelled labelled')
      exact ⟨_, node, sameEdge ▸ node'⟩

namespace Sample

/-- Two triangles that run through their common edge in opposite directions. -/
def kite : TriangleMesh ℚ :=
  ⟨[⟨0, 0⟩, ⟨5, 5⟩, ⟨1, 0⟩, ⟨0, 1⟩, ⟨1 / 2, 2⟩], [⟨0, 2, 3⟩, ⟨2, 4, 3⟩]⟩

def kiteView : MeshView ℚ Triangle where
  mesh := kite
  cells := #[⟨0, 2, 3⟩, ⟨2, 4, 3⟩]
  cellFaces := #[[0, 1, 2], [3, 4, 1]]
  numFaces := 5
  vertexLabels := #[some 0, none, some 1, some 2, some 3]
  numVertices := 4

theorem kite_viewed : MeshView.ofMesh kite = .ok kiteView := rfl

def kiteQuadratic : LagrangeBasis := ⟨kiteView.toGridView 0, .quadratic, 9⟩

theorem kiteQuadratic_created :
    LagrangeBasis.create (kiteView.toGridView 0) 2 = .ok kiteQuadratic := rfl

end Sample

theorem functions_are_continuous_kite :
    (∃ value triangle triangle',
      Sample.kiteQuadratic.valueAt [3, 1, 4, 1, 5, 9, 2, 6, 5] 0 (edgePoint 1 2 (1 / 3)) = .ok value ∧
      Sample.kiteQuadratic.valueAt [3, 1, 4, 1, 5, 9, 2, 6, 5] 1 (edgePoint 0 2 (1 / 3)) = .ok value ∧
      Sample.kiteView.element? 0 = some triangle ∧ Sample.kiteView.element? 1 = some triangle' ∧
      triangle.map (edgePoint 1 2 (1 / 3)) = triangle'.map (edgePoint 0 2 (1 / 3))) ∧
    ∃ site, LagrangeElement.quadratic.NodeAt ⟨0, 2, 3⟩ 4 site ∧
      LagrangeElement.quadratic.NodeAt ⟨2, 4, 3⟩ 5 site := by
  obtain ⟨continuous, separate⟩ :=
    functions_are_continuous Sample.kite_viewed Sample.kiteQuadratic_created
  exact ⟨continuous [3, 1, 4, 1, 5, 9, 2, 6, 5] 0 1 ⟨0, 2, 3⟩ ⟨2, 4, 3⟩ 1 2 0 2 (1 / 3) rfl rfl rfl
    (by decide) (by decide) rfl rfl,
    separate 0 1 ⟨0, 2, 3⟩ ⟨2, 4, 3⟩ 4 5 5 rfl rfl rfl rfl⟩

end DofNumbering
