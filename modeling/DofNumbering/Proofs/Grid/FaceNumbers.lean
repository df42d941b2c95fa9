import DofNumbering.Proofs.Samples
import Mathlib.Data.List.Dedup
import Mathlib.Data.Sym.Sym2

namespace DofNumbering

/-! Faces are numbered in the order in which they appear.

Every face gets its number where it is met first, cell by cell and face by face.
The number of a new face is the number of different faces met before.
-/

/-- Each number that is a new one is the number of different numbers in front of it. -/
def InOrderOfAppearance (numbers : List Nat) : Prop :=
  ∀ before number after, numbers = before ++ number :: after → number ∉ before →
    number = before.dedup.length

namespace EdgeLabels

variable {labels : EdgeLabels} {edge : Edge} {known : List Edge}

/-- A number that no edge had before is the next one. -/
theorem label_eq_size (numbers : Numbers labels known)
    (fresh : ¬ (labels.label edge).1 < labels.size) : (labels.label edge).1 = labels.size := by
  rw [label] at fresh ⊢
  cases found : labels.get? edge with
  | some number =>
      rw [found] at fresh
      exact absurd (numbers.bounded found) fresh
  | none => rfl

theorem length_labelAll (edges : List Edge) (labels : EdgeLabels) :
    (labelAll edges labels).1.length = edges.length := by
  induction edges generalizing labels with
  | nil => rfl
  | cons edge rest ih => simp only [labelAll, List.length_cons, ih]

/-- As many numbers as edges have been given. -/
theorem length_dedup_labelAll (edges : List Edge) :
    (labelAll edges ∅).1.dedup.length = (labelAll edges ∅).2.size := by
  have same : (labelAll edges ∅).1.dedup.Perm (List.range (labelAll edges ∅).2.size) :=
    (List.perm_ext_iff_of_nodup (List.nodup_dedup _) List.nodup_range).mpr (fun number => by
      rw [List.mem_dedup, mem_labelAll_iff, List.mem_range])
  rw [same.length_eq, List.length_range]

theorem inOrderOfAppearance_labelAll (edges : List Edge) :
    InOrderOfAppearance (labelAll edges ∅).1 := by
  intro before number after split fresh
  -- The edges split where their numbers do.
  obtain ⟨first, edge, rest, rfl, sameLength⟩ : ∃ first edge rest,
      edges = first ++ edge :: rest ∧ first.length = before.length := by
    have inEdges : before.length < edges.length := by
      rw [← length_labelAll edges ∅, split]
      simp
    refine ⟨edges.take before.length, edges[before.length], edges.drop (before.length + 1), ?_,
      List.length_take_of_le (Nat.le_of_lt inEdges)⟩
    rw [List.cons_getElem_drop_succ, List.take_append_drop]
  rw [labelAll_append] at split
  obtain ⟨rfl, sameRest⟩ := List.append_inj split (by rw [length_labelAll, sameLength])
  obtain rfl : ((labelAll first ∅).2.label edge).1 = number := (List.cons.inj sameRest).1
  obtain ⟨-, -, known, numbers, -⟩ := labelAll_spec numbers_empty first
  rw [length_dedup_labelAll]
  exact label_eq_size numbers (fun below => fresh (mem_labelAll_iff.mpr below))

end EdgeLabels

/-- Two faces are the same edge exactly if they join the same two vertices. -/
theorem Segment.edge_eq_iff {face face' : Segment} :
    face.edge = face'.edge ↔ s(face.first, face.second) = s(face'.first, face'.second) := by
  rw [Segment.edge, Segment.edge, Edge.mk.injEq, Sym2.eq_iff]
  omega

namespace MeshView

variable {R C : Type} [Cell C] {mesh : Mesh R C} {view : MeshView R C} {cell cell' : C}
  {element element' i i' : Nat} {face face' : Segment}

theorem numSubEntities_faces (viewed : ofMesh mesh = .ok view)
    (found : mesh.cells[element]? = some cell) :
    view.numSubEntities element 1 = .ok (Cell.faces cell).length := by
  obtain ⟨numbers, foundNumbers, sameFaces⟩ := exists_cellFaces viewed found
  have sameLength : numbers.length = (Cell.faces cell).length := by
    simpa using congrArg List.length sameFaces
  rw [numSubEntities, Index.lookUp_eq_ok_iff.mpr foundNumbers, ok_bind, sameLength]

/-- Faces of cells have the same number exactly if they join the same two vertices. -/
theorem exists_faces_eq_iff (viewed : ofMesh mesh = .ok view)
    (found : mesh.cells[element]? = some cell) (foundFace : (Cell.faces cell)[i]? = some face)
    (found' : mesh.cells[element']? = some cell')
    (foundFace' : (Cell.faces cell')[i']? = some face') :
    ∃ label label', view.subEntity element 1 i = .ok label ∧
      view.subEntity element' 1 i' = .ok label' ∧
      (label = label' ↔ s(face.first, face.second) = s(face'.first, face'.second)) := by
  obtain ⟨label, labelled, answer⟩ := subEntity_face viewed found foundFace
  obtain ⟨label', labelled', answer'⟩ := subEntity_face viewed found' foundFace'
  obtain ⟨known, numbers, -⟩ := faceLabels_numbers mesh
  refine ⟨label, label', answer, answer', ?_⟩
  rw [← Segment.edge_eq_iff]
  constructor
  · rintro rfl
    exact numbers.injective labelled labelled'
  · intro sameEdge
    rw [sameEdge] at labelled
    exact Option.some.inj (labelled.symm.trans labelled')

/-- The numbers of the faces of all cells are those that their edges get as one list. -/
theorem allSubEntities_faces (viewed : ofMesh mesh = .ok view) (tag : Nat) :
    ∃ labels, (view.toGridView tag).allSubEntities 1 = .ok labels ∧
      labels.flatten = (EdgeLabels.labelAll (EdgeLabels.edgesOf mesh.cells) ∅).1 ∧
      view.size 1 = (EdgeLabels.labelAll (EdgeLabels.edgesOf mesh.cells) ∅).2.size := by
  obtain ⟨-, -, cellFaces, numFaces, -⟩ := ofMesh_eq_ok viewed
  obtain ⟨listed, sameLabels⟩ := EdgeLabels.labelCells_flatten mesh.cells #[] ∅
  refine ⟨view.cellFaces.toList, ?_, by rw [cellFaces, listed]; simp, sameLabels ▸ numFaces⟩
  have asMany : (view.toGridView tag).size 0 = view.cellFaces.toList.length := by
    obtain ⟨faces, sameFaces, labelled, -⟩ :=
      EdgeLabels.labelCells_spec EdgeLabels.numbers_empty mesh.cells #[]
    have perCell : faces.length = mesh.cells.length := by simpa using congrArg List.length labelled
    rw [cellFaces, sameFaces, List.nil_append, perCell]
    exact size_zero viewed
  rw [GridView.allSubEntities, asMany]
  refine Index.collect_entries [] (fun element numbers foundNumbers => ?_)
  rw [Array.getElem?_toList] at foundNumbers
  have counted : (view.toGridView tag).numSubEntities element 1 = .ok numbers.length := by
    show view.numSubEntities element 1 = _
    rw [numSubEntities, Index.lookUp_eq_ok_iff.mpr foundNumbers, ok_bind]
  rw [GridView.subEntities, counted, ok_bind]
  refine Index.collect_entries 0 (fun position label foundLabel => ?_)
  show view.subEntity element 1 position = _
  rw [subEntity, Index.lookUp_eq_ok_iff.mpr foundNumbers, ok_bind,
    Index.entry_eq_ok_iff.mpr foundLabel]

/-- The faces of a mesh are numbered once, without gaps and in the order in which
they appear, cell by cell and face by face; cells may be degenerate or repeated. -/
theorem faces_numbered_by_appearance (inBounds : mesh.InBounds) (tag : Nat) :
    ∃ view labels, ofMesh mesh = .ok view ∧
      (∀ (element : Nat) (cell : C), mesh.cells[element]? = some cell →
        view.numSubEntities element 1 = .ok (Cell.faces cell).length) ∧
      (∀ (element i : Nat) (cell : C) (face : Segment) (element' i' : Nat) (cell' : C)
        (face' : Segment),
        mesh.cells[element]? = some cell → (Cell.faces cell)[i]? = some face →
        mesh.cells[element']? = some cell' → (Cell.faces cell')[i']? = some face' →
        ∃ label label', view.subEntity element 1 i = .ok label ∧
          view.subEntity element' 1 i' = .ok label' ∧
          (label = label' ↔ s(face.first, face.second) = s(face'.first, face'.second))) ∧
      (view.toGridView tag).allSubEntities 1 = .ok labels ∧
      (∀ label, label ∈ labels.flatten ↔ label < view.size 1) ∧
      InOrderOfAppearance labels.flatten := by
  obtain ⟨view, viewed⟩ := exists_ofMesh_iff.mpr inBounds
  obtain ⟨labels, listed, asEdges, size⟩ := allSubEntities_faces viewed tag
  refine ⟨view, labels, viewed, fun element cell => numSubEntities_faces viewed,
    fun element i cell face element' i' cell' face' => exists_faces_eq_iff viewed, listed, ?_, ?_⟩
  · intro label
    rw [asEdges, size]
    exact EdgeLabels.mem_labelAll_iff
  · rw [asEdges]
    exact EdgeLabels.inOrderOfAppearance_labelAll _

/-- Degenerate and repeated cells give no face a second number. -/
theorem faces_numbered_by_appearance_folded :
    Sample.folded.InBounds ∧ ∃ view, ofMesh Sample.folded = .ok view ∧ view.size 1 = 6 ∧
      (view.toGridView 0).allSubEntities 1 = .ok [[0, 1, 2, 3], [1, 4, 5, 3], [0, 1, 2, 3]] ∧
      InOrderOfAppearance [0, 1, 2, 3, 1, 4, 5, 3, 0, 1, 2, 3] := by
  have inBounds : Sample.folded.InBounds := by decide
  obtain ⟨view, labels, viewed, -, -, listed, -, inOrder⟩ := faces_numbered_by_appearance inBounds 0
  obtain rfl : view = Sample.foldedView := Except.ok.inj (viewed.symm.trans Sample.folded_viewed)
  obtain rfl : labels = [[0, 1, 2, 3], [1, 4, 5, 3], [0, 1, 2, 3]] :=
    Except.ok.inj (listed.symm.trans rfl)
  exact ⟨inBounds, Sample.foldedView, viewed, rfl, listed, inOrder⟩

end MeshView

end DofNumbering
