import DofNumbering.Proofs.Continuity

namespace DofNumbering

/-! Checked connectivity makes every query of a grid view safe.

A mesh is accepted exactly if its cells refer to vertices that exist.  Its view
then answers for each element how many subentities it has and which ones, and
all of these are entities of the view.
-/

namespace Mesh

variable {R C : Type} [Cell C] {cells : List C} {numVertices first number vertex : Nat}

theorem firstInvalid?_eq_none_iff : firstInvalid? numVertices first cells = none ↔
    ∀ cell ∈ cells, ∀ vertex ∈ Cell.vertices cell, vertex < numVertices := by
  induction cells generalizing first with
  | nil => simp [firstInvalid?]
  | cons cell rest ih =>
      rw [firstInvalid?, List.forall_mem_cons]
      cases search : (Cell.vertices cell).find? (fun vertex => decide (numVertices ≤ vertex)) with
      | none =>
          have inRange : ∀ vertex ∈ Cell.vertices cell, vertex < numVertices := by
            simpa using List.find?_eq_none.mp search
          exact ih.trans (iff_and_self.mpr (fun _ => inRange))
      | some vertex =>
          have outOfRange : numVertices ≤ vertex := by simpa using List.find?_some search
          have inCell := List.mem_of_find?_eq_some search
          refine iff_of_false nofun (fun inRange => ?_)
          exact Nat.not_lt_of_le outOfRange (inRange.1 vertex inCell)

/-- Nothing in front of an invalid vertex that is found is invalid. -/
theorem of_firstInvalid?_eq_some
    (invalid : firstInvalid? numVertices first cells = some (number, vertex)) :
    ∃ before cell after earlier later, cells = before ++ cell :: after ∧
      Cell.vertices cell = earlier ++ vertex :: later ∧ number = first + before.length ∧
      numVertices ≤ vertex ∧ (∀ valid ∈ earlier, valid < numVertices) ∧
      ∀ cell ∈ before, ∀ valid ∈ Cell.vertices cell, valid < numVertices := by
  induction cells generalizing first with
  | nil => cases invalid
  | cons cell rest ih =>
      rw [firstInvalid?] at invalid
      cases search : (Cell.vertices cell).find? (fun vertex => decide (numVertices ≤ vertex)) with
      | none =>
          rw [search] at invalid
          obtain ⟨before, cell', after, earlier, later, rfl, vertices, rfl, outOfRange, valid,
            validBefore⟩ := ih invalid
          have validHere : ∀ valid ∈ Cell.vertices cell, valid < numVertices := by
            simpa using List.find?_eq_none.mp search
          exact ⟨cell :: before, cell', after, earlier, later, rfl, vertices,
            by rw [List.length_cons]; omega, outOfRange, valid,
            List.forall_mem_cons.mpr ⟨validHere, validBefore⟩⟩
      | some found =>
          rw [search] at invalid
          obtain ⟨rfl, rfl⟩ : first = number ∧ found = vertex := by simpa using invalid
          obtain ⟨outOfRange, earlier, later, vertices, valid⟩ :=
            List.find?_eq_some_iff_append.mp search
          exact ⟨[], cell, rest, earlier, later, rfl, vertices, rfl, by simpa using outOfRange,
            by simpa using valid, nofun⟩

variable {vertices : List (Point R)} {mesh : Mesh R C}

theorem checked_eq_ok_iff :
    checked vertices cells = .ok mesh ↔ mesh = ⟨vertices, cells⟩ ∧ mesh.InBounds := by
  rw [checked]
  cases search : firstInvalid? vertices.length 0 cells with
  | none =>
      have inBounds := firstInvalid?_eq_none_iff.mp search
      constructor
      · rintro ⟨⟩
        exact ⟨rfl, inBounds⟩
      · rintro ⟨rfl, -⟩
        rfl
  | some found =>
      refine iff_of_false nofun ?_
      rintro ⟨rfl, inBounds⟩
      have valid : firstInvalid? vertices.length 0 cells = none :=
        firstInvalid?_eq_none_iff.mpr inBounds
      rw [search] at valid
      cases valid

theorem of_checked_eq_error {reason : Refusal} (refused : checked vertices cells = .error reason) :
    ∃ before cell after earlier vertex later, cells = before ++ cell :: after ∧
      Cell.vertices cell = earlier ++ vertex :: later ∧
      reason = .invalidConnectivity before.length vertex vertices.length ∧
      vertices.length ≤ vertex ∧ (∀ valid ∈ earlier, valid < vertices.length) ∧
      ∀ cell ∈ before, ∀ valid ∈ Cell.vertices cell, valid < vertices.length := by
  rw [checked] at refused
  cases search : firstInvalid? vertices.length 0 cells with
  | none =>
      rw [search] at refused
      cases refused
  | some found =>
      rw [search] at refused
      obtain ⟨number, vertex⟩ := found
      obtain ⟨before, cell, after, earlier, later, split, vertices, rfl, invalid⟩ :=
        of_firstInvalid?_eq_some search
      obtain rfl := Except.error.inj refused
      exact ⟨before, cell, after, earlier, vertex, later, split, vertices, by rw [Nat.zero_add],
        invalid⟩

end Mesh

namespace MeshView

section Queries

variable {R C : Type} [Cell C] {mesh : Mesh R C} {view : MeshView R C} {cell : C}
  {element codim : Nat}

theorem numSubEntities_vertices (viewed : ofMesh mesh = .ok view)
    (found : mesh.cells[element]? = some cell) :
    view.numSubEntities element 2 = .ok (Cell.vertices cell).length := by
  obtain ⟨-, cells, -⟩ := ofMesh_eq_ok viewed
  have foundCell : view.cells[element]? = some cell := by rw [cells, List.getElem?_toArray, found]
  rw [numSubEntities, Index.lookUp_eq_ok_iff.mpr foundCell, ok_bind]

theorem subEntities_are_entities (viewed : ofMesh mesh = .ok view) (below : element < view.size 0)
    (atMost : codim ≤ 2) : ∃ count, view.numSubEntities element codim = .ok count ∧
      ∀ i < count, ∃ label < view.size codim, view.subEntity element codim i = .ok label := by
  obtain ⟨-, -, -, numFaces, -, numVertices⟩ := ofMesh_eq_ok viewed
  have inMesh : element < mesh.cells.length := size_zero viewed ▸ below
  have found := List.getElem?_eq_getElem inMesh
  match codim, atMost with
  | 0, _ =>
      refine ⟨1, rfl, fun i first => ⟨element, below, ?_⟩⟩
      obtain rfl := Nat.lt_one_iff.mp first
      rfl
  | 1, _ =>
      refine ⟨_, numSubEntities_faces viewed found, fun i inCell => ?_⟩
      obtain ⟨label, labelled, answer⟩ :=
        subEntity_face viewed found (List.getElem?_eq_getElem inCell)
      obtain ⟨known, numbers, -⟩ := faceLabels_numbers mesh
      exact ⟨label, Nat.lt_of_lt_of_eq (numbers.bounded labelled) numFaces.symm, answer⟩
  | 2, _ =>
      refine ⟨_, numSubEntities_vertices viewed found, fun i inCell => ?_⟩
      obtain ⟨marked, answer⟩ := subEntity_vertex viewed found (List.getElem?_eq_getElem inCell)
      exact ⟨_, Nat.lt_of_lt_of_eq (count_take_lt_count marked) numVertices.symm, answer⟩

end Queries

variable {R : Type} {mesh : TriangleMesh R} {view : MeshView R Triangle} {element : Nat}

theorem isSome_element?_iff (viewed : ofMesh mesh = .ok view) :
    (view.element? element).isSome ↔ element < view.size 0 := by
  obtain ⟨-, cells, -⟩ := ofMesh_eq_ok viewed
  constructor
  · intro isElement
    by_contra notBelow
    rw [size_zero viewed] at notBelow
    have missing : view.cells[element]? = none := by
      rw [cells, List.getElem?_toArray, List.getElem?_eq_none (Nat.le_of_not_lt notBelow)]
    simp [element?, missing] at isElement
  · intro below
    obtain ⟨cell, found⟩ := exists_triangle viewed below
    obtain ⟨triangle, answer, -⟩ := exists_element viewed found
    rw [answer]
    rfl

end MeshView

/-- Cells are accepted exactly if they refer to vertices that exist, and refused with the
first cell that does not and its first such vertex.  The view of an accepted mesh has each cell
as an element, and it answers each query about their subentities with entities of its own. -/
theorem accepted_meshes_answer {R C : Type} [Cell C] (vertices : List (Point R))
    (cells : List C) :
    ((∃ mesh, Mesh.checked vertices cells = .ok mesh) ↔
      ∀ cell ∈ cells, ∀ vertex ∈ Cell.vertices cell, vertex < vertices.length) ∧
    (∀ reason, Mesh.checked vertices cells = .error reason →
      ∃ before cell after earlier vertex later, cells = before ++ cell :: after ∧
        Cell.vertices cell = earlier ++ vertex :: later ∧
        reason = .invalidConnectivity before.length vertex vertices.length ∧
        vertices.length ≤ vertex ∧ (∀ valid ∈ earlier, valid < vertices.length) ∧
        ∀ cell ∈ before, ∀ valid ∈ Cell.vertices cell, valid < vertices.length) ∧
    (∀ mesh, Mesh.checked vertices cells = .ok mesh → mesh = ⟨vertices, cells⟩ ∧
      ∃ view, MeshView.ofMesh mesh = .ok view ∧ view.size 0 = cells.length ∧
        ∀ element < view.size 0, ∀ codim ≤ 2,
          ∃ count, view.numSubEntities element codim = .ok count ∧
            ∀ i < count, ∃ label < view.size codim, view.subEntity element codim i = .ok label) ∧
    (∀ (triangles : List Triangle) (mesh : TriangleMesh R),
      Mesh.checked vertices triangles = .ok mesh → ∃ view, MeshView.ofMesh mesh = .ok view ∧
        view.size 0 = triangles.length ∧
        ∀ element, (view.element? element).isSome ↔ element < view.size 0) := by
  refine ⟨?_, fun reason => Mesh.of_checked_eq_error, ?_, ?_⟩
  · constructor
    · rintro ⟨mesh, accepted⟩
      obtain ⟨rfl, inBounds⟩ := Mesh.checked_eq_ok_iff.mp accepted
      exact inBounds
    · intro inBounds
      exact ⟨⟨vertices, cells⟩, Mesh.checked_eq_ok_iff.mpr ⟨rfl, inBounds⟩⟩
  · intro mesh accepted
    obtain ⟨rfl, inBounds⟩ := Mesh.checked_eq_ok_iff.mp accepted
    obtain ⟨view, viewed⟩ := MeshView.exists_ofMesh_iff.mpr inBounds
    exact ⟨rfl, view, viewed, MeshView.size_zero viewed, fun element below codim atMost =>
      MeshView.subEntities_are_entities viewed below atMost⟩
  · intro triangles mesh accepted
    obtain ⟨rfl, inBounds⟩ := Mesh.checked_eq_ok_iff.mp accepted
    obtain ⟨view, viewed⟩ := MeshView.exists_ofMesh_iff.mpr inBounds
    exact ⟨view, viewed, MeshView.size_zero viewed, fun element =>
      MeshView.isSome_element?_iff viewed⟩

/-- A mesh of quadrilaterals, one of triangles, and triangles of which the second and the
third refer to vertices that do not exist. -/
theorem accepted_meshes_answer_folded :
    Mesh.checked Sample.folded.vertices Sample.folded.cells = .ok Sample.folded ∧
      Sample.foldedView.size 0 = 3 ∧ (∀ element < 3, ∀ codim ≤ 2, ∃ count,
        Sample.foldedView.numSubEntities element codim = .ok count ∧
          ∀ i < count, ∃ label < Sample.foldedView.size codim,
            Sample.foldedView.subEntity element codim i = .ok label) ∧
      Mesh.checked Sample.triangle.vertices Sample.triangle.cells = .ok Sample.triangle ∧
      (Sample.triangleView.element? 0).isSome ∧ ¬ (Sample.triangleView.element? 1).isSome ∧
      Mesh.checked Sample.triangle.vertices Sample.stray =
        .error (.invalidConnectivity 1 7 3) ∧
      ∃ before cell after, Sample.stray = before ++ cell :: after ∧ before.length = 1 ∧
        7 ∈ Cell.vertices cell := by
  obtain ⟨-, -, safe, -⟩ :=
    accepted_meshes_answer Sample.folded.vertices Sample.folded.cells
  have accepted : Mesh.checked Sample.folded.vertices Sample.folded.cells = .ok Sample.folded := rfl
  obtain ⟨-, view, viewed, numElements, answers⟩ := safe _ accepted
  obtain rfl : view = Sample.foldedView := Except.ok.inj (viewed.symm.trans Sample.folded_viewed)
  have triangle : Mesh.checked Sample.triangle.vertices Sample.triangle.cells =
    .ok Sample.triangle := rfl
  obtain ⟨-, -, -, shaped⟩ :=
    accepted_meshes_answer Sample.triangle.vertices Sample.triangle.cells
  obtain ⟨view, viewed, -, elements⟩ := shaped _ _ triangle
  obtain rfl : view = Sample.triangleView :=
    Except.ok.inj (viewed.symm.trans Sample.triangle_viewed)
  obtain ⟨-, refusals, -⟩ := accepted_meshes_answer Sample.triangle.vertices Sample.stray
  have refused : Mesh.checked Sample.triangle.vertices Sample.stray =
    .error (.invalidConnectivity 1 7 3) := rfl
  obtain ⟨before, cell, after, earlier, vertex, later, split, vertices, reason, -⟩ :=
    refusals _ refused
  obtain ⟨first, rfl⟩ : 1 = before.length ∧ 7 = vertex := by
    injection reason with first found
    exact ⟨first, found⟩
  exact ⟨accepted, numElements, answers, triangle, (elements 0).mpr (by decide),
    (elements 1).not.mpr (by decide), refused, before, cell, after, split, first.symm,
    by rw [vertices]; simp⟩

end DofNumbering
