import DofNumbering.Proofs.Samples
import Mathlib.Data.Nat.Count

namespace DofNumbering

/-! Vertices are numbered in the order of the mesh.

The vertices of a view are those to which some cell refers.  The number of such
a vertex is the number of those below it, so they keep their order and no number
is left out.
-/

section Ranks

variable {marks : List Bool} {numbers : Finset Nat}

theorem count_take_eq_card (marked : ∀ i, marks[i]? = some true ↔ i ∈ numbers) (bound : Nat) :
    (marks.take bound).count true = (numbers.filter (· < bound)).card := by
  have counted : (marks.take bound).count true = Nat.count (· ∈ numbers) bound := by
    induction bound with
    | zero => rfl
    | succ bound ih =>
        rw [List.take_add_one, List.count_append, ih, Nat.count_succ]
        congr 1
        by_cases inNumbers : bound ∈ numbers
        · rw [(marked bound).mpr inNumbers, if_pos inNumbers]
          rfl
        · rw [if_neg inNumbers]
          cases mark : marks[bound]? with
          | none => rfl
          | some mark' =>
              cases mark' with
              | false => rfl
              | true => exact absurd ((marked bound).mp mark) inNumbers
  rw [counted, Nat.count_eq_card_filter_range]
  congr 1
  ext i
  simp [and_comm]

theorem count_eq_card (marked : ∀ i, marks[i]? = some true ↔ i ∈ numbers) :
    marks.count true = numbers.card := by
  have all := count_take_eq_card marked marks.length
  rw [List.take_length, Finset.filter_true_of_mem] at all
  · exact all
  · intro i inNumbers
    exact (List.getElem?_eq_some_iff.mp ((marked i).mpr inNumbers)).1

end Ranks

/-- The vertices to which some cell refers. -/
def Mesh.referenced {R C : Type} [Cell C] (mesh : Mesh R C) : Finset Nat :=
  (mesh.cells.flatMap Cell.vertices).toFinset

namespace MeshView

variable {R C : Type} [Cell C] {mesh : Mesh R C} {view : MeshView R C} {cell : C}
  {element i vertex vertex' label label' : Nat}

theorem getElem?_vertexMarks_iff (inBounds : mesh.InBounds) (vertex : Nat) :
    (vertexMarks mesh)[vertex]? = some true ↔ vertex ∈ mesh.referenced := by
  rw [getElem?_vertexMarks, Mesh.referenced, List.mem_toFinset, List.mem_flatMap]
  constructor
  · rintro ⟨-, refers⟩
    exact refers
  · rintro ⟨cell, inCells, inCell⟩
    exact ⟨inBounds cell inCells vertex inCell, cell, inCells, inCell⟩

theorem vertexIndex?_eq (viewed : ofMesh mesh = .ok view) (vertex : Nat) :
    view.vertexIndex? vertex = if vertex ∈ mesh.referenced
      then some (mesh.referenced.filter (· < vertex)).card else none := by
  obtain ⟨inBounds, -, -, -, labels, -⟩ := ofMesh_eq_ok viewed
  have labelled : view.vertexLabels[vertex]? = (vertexMarks mesh)[vertex]?.map (fun mark =>
      if mark then some (mesh.referenced.filter (· < vertex)).card else none) := by
    have numbered := @getElem?_labelMarked_eq (vertexMarks mesh) vertex 0 #[]
    rw [count_take_eq_card (getElem?_vertexMarks_iff inBounds)] at numbered
    rw [labels]
    simpa using numbered
  rw [vertexIndex?, labelled]
  by_cases refers : vertex ∈ mesh.referenced
  · rw [if_pos refers, (getElem?_vertexMarks_iff inBounds vertex).mpr refers]
    rfl
  · rw [if_neg refers]
    cases mark : (vertexMarks mesh)[vertex]? with
    | none => rfl
    | some mark' =>
        cases mark' with
        | false => rfl
        | true => exact absurd ((getElem?_vertexMarks_iff inBounds vertex).mp mark) refers

theorem vertexIndex?_eq_some_iff (viewed : ofMesh mesh = .ok view) :
    view.vertexIndex? vertex = some label ↔
      vertex ∈ mesh.referenced ∧ label = (mesh.referenced.filter (· < vertex)).card := by
  rw [vertexIndex?_eq viewed]
  split <;> simp_all [eq_comm]

theorem vertexIndex?_eq_none_iff (viewed : ofMesh mesh = .ok view) :
    view.vertexIndex? vertex = none ↔ vertex ∉ mesh.referenced := by
  rw [vertexIndex?_eq viewed]
  split <;> simp_all

theorem size_two (viewed : ofMesh mesh = .ok view) : view.size 2 = mesh.referenced.card := by
  obtain ⟨inBounds, -, -, -, -, count⟩ := ofMesh_eq_ok viewed
  exact count.trans (count_eq_card (getElem?_vertexMarks_iff inBounds))

/-- A vertex of a cell has a number, which is the one that the cell shows at its place. -/
theorem exists_vertexIndex (viewed : ofMesh mesh = .ok view)
    (found : mesh.cells[element]? = some cell)
    (foundVertex : (Cell.vertices cell)[i]? = some vertex) :
    ∃ label, view.vertexIndex? vertex = some label ∧ view.subEntity element 2 i = .ok label := by
  obtain ⟨inBounds, -⟩ := ofMesh_eq_ok viewed
  obtain ⟨marked, answer⟩ := subEntity_vertex viewed found foundVertex
  have marks := getElem?_vertexMarks_iff inBounds
  exact ⟨_, (vertexIndex?_eq_some_iff viewed).mpr
    ⟨(marks vertex).mp marked, count_take_eq_card marks vertex⟩, answer⟩

theorem vertexIndex?_lt_iff (viewed : ofMesh mesh = .ok view)
    (numbered : view.vertexIndex? vertex = some label)
    (numbered' : view.vertexIndex? vertex' = some label') : label < label' ↔ vertex < vertex' := by
  obtain ⟨inBounds, -⟩ := ofMesh_eq_ok viewed
  have marks := getElem?_vertexMarks_iff inBounds
  obtain ⟨refers, rfl⟩ := (vertexIndex?_eq_some_iff viewed).mp numbered
  obtain ⟨refers', rfl⟩ := (vertexIndex?_eq_some_iff viewed).mp numbered'
  rw [← count_take_eq_card marks, ← count_take_eq_card marks]
  constructor
  · intro less
    by_contra notBelow
    rcases Nat.eq_or_lt_of_not_lt notBelow with same | below
    · exact absurd less (by simp [same])
    · have more := count_take_lt_count_take ((marks vertex').mpr refers') below
      omega
  · exact count_take_lt_count_take ((marks vertex).mpr refers)

theorem lt_size_two_iff (viewed : ofMesh mesh = .ok view) :
    label < view.size 2 ↔ ∃ vertex, view.vertexIndex? vertex = some label := by
  obtain ⟨inBounds, -, -, -, -, count⟩ := ofMesh_eq_ok viewed
  have marks := getElem?_vertexMarks_iff inBounds
  constructor
  · intro below
    obtain ⟨element, cell, i, vertex, found, foundVertex, answer⟩ := exists_vertex viewed below
    obtain ⟨label', numbered, answer'⟩ := exists_vertexIndex viewed found foundVertex
    obtain rfl : label = label' := Except.ok.inj (answer.symm.trans answer')
    exact ⟨vertex, numbered⟩
  · rintro ⟨vertex, numbered⟩
    obtain ⟨refers, rfl⟩ := (vertexIndex?_eq_some_iff viewed).mp numbered
    rw [← count_take_eq_card marks]
    exact Nat.lt_of_lt_of_eq (count_take_lt_count ((marks vertex).mpr refers)) count.symm

/-- Exactly the vertices to which some cell refers have numbers: each the number of those
below it, which is also the one that cells show for it.  The numbers keep the order of
the vertices, leave none out, and each is that of a vertex of some cell. -/
theorem vertices_numbered_in_order (inBounds : mesh.InBounds) :
    ∃ view, ofMesh mesh = .ok view ∧
      (∀ vertex, (∃ label, view.vertexIndex? vertex = some label) ↔
        ∃ cell ∈ mesh.cells, vertex ∈ Cell.vertices cell) ∧
      (∀ vertex label, view.vertexIndex? vertex = some label →
        label = (mesh.referenced.filter (· < vertex)).card) ∧
      (∀ vertex, mesh.vertices.length ≤ vertex → view.vertexIndex? vertex = none) ∧
      view.size 2 = mesh.referenced.card ∧
      (∀ (element i vertex : Nat) (cell : C), mesh.cells[element]? = some cell →
        (Cell.vertices cell)[i]? = some vertex →
        ∃ label, view.vertexIndex? vertex = some label ∧
          view.subEntity element 2 i = .ok label) ∧
      (∀ vertex vertex' label label', view.vertexIndex? vertex = some label →
        view.vertexIndex? vertex' = some label' → (label < label' ↔ vertex < vertex')) ∧
      (∀ label, label < view.size 2 ↔ ∃ vertex, view.vertexIndex? vertex = some label) ∧
      (∀ label < view.size 2, ∃ (element i : Nat) (cell : C), mesh.cells[element]? = some cell ∧
        i < (Cell.vertices cell).length ∧ view.subEntity element 2 i = .ok label) := by
  obtain ⟨view, viewed⟩ := exists_ofMesh_iff.mpr inBounds
  have refers : ∀ vertex, vertex ∈ mesh.referenced ↔
      ∃ cell ∈ mesh.cells, vertex ∈ Cell.vertices cell := fun vertex => by
    rw [Mesh.referenced, List.mem_toFinset, List.mem_flatMap]
  refine ⟨view, viewed, ?_, fun vertex label numbered =>
    ((vertexIndex?_eq_some_iff viewed).mp numbered).2, ?_, size_two viewed,
    fun element i vertex cell => exists_vertexIndex viewed,
    fun vertex vertex' label label' => vertexIndex?_lt_iff viewed,
    fun label => lt_size_two_iff viewed, ?_⟩
  · intro vertex
    rw [← refers, ← Option.isSome_iff_exists, Option.isSome_iff_ne_none, ne_eq,
      vertexIndex?_eq_none_iff viewed, not_not]
  · intro vertex outOfRange
    rw [vertexIndex?_eq_none_iff viewed, refers]
    rintro ⟨cell, inCells, inCell⟩
    exact Nat.not_lt_of_le outOfRange (inBounds cell inCells vertex inCell)
  · intro label below
    obtain ⟨element, cell, i, vertex, found, foundVertex, answer⟩ := exists_vertex viewed below
    exact ⟨element, i, cell, found, (List.getElem?_eq_some_iff.mp foundVertex).1, answer⟩

/-- Vertices without cells at either end and in between get no numbers. -/
theorem vertices_numbered_in_order_chain :
    Sample.chain.InBounds ∧ ∃ view, ofMesh Sample.chain = .ok view ∧ view.size 2 = 3 ∧
      (List.range 7).map view.vertexIndex? =
        [none, some 0, none, some 1, some 2, none, none] ∧
      Sample.chain.referenced = {1, 3, 4} ∧ view.subEntity 0 2 0 = .ok 2 := by
  have inBounds : Sample.chain.InBounds := by decide
  obtain ⟨view, viewed, -, -, -, size, answers, -, -⟩ := vertices_numbered_in_order inBounds
  obtain rfl : view = Sample.chainView := Except.ok.inj (viewed.symm.trans Sample.chain_viewed)
  obtain ⟨label, numbered, answer⟩ := answers 0 0 4 ⟨4, 1⟩ rfl rfl
  obtain rfl : 2 = label := Option.some.inj numbered
  exact ⟨inBounds, Sample.chainView, viewed, size, rfl, by decide, answer⟩

end MeshView

end DofNumbering
