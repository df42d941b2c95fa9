import DofNumbering.Grid.Mesh
import DofNumbering.Proofs.Result
import Std.Data.TreeMap.Lemmas

namespace DofNumbering

/-! The numbers of the edges of a mesh.

Edges get the numbers below the number of edges, each another one, and an edge
keeps its number while more edges are numbered.
-/

namespace EdgeLabels

variable {labels later last : EdgeLabels} {edge edge' : Edge} {edges numbered : List Edge}
  {number : Nat}

/-- Exactly the given edges have numbers, which are different ones and leave none out. -/
structure Numbers (labels : EdgeLabels) (edges : List Edge) : Prop where
  known : ∀ edge, (∃ number, labels.get? edge = some number) ↔ edge ∈ edges
  bounded : ∀ {edge number}, labels.get? edge = some number → number < labels.size
  injective : ∀ {edge edge' number}, labels.get? edge = some number →
    labels.get? edge' = some number → edge = edge'
  onto : ∀ number < labels.size, ∃ edge, labels.get? edge = some number

/-- The edges that have numbers keep them. -/
def Keeps (labels later : EdgeLabels) : Prop :=
  ∀ edge number, labels.get? edge = some number → later.get? edge = some number

theorem Keeps.refl (labels : EdgeLabels) : Keeps labels labels := fun _ _ found => found

theorem Keeps.trans (first : Keeps labels later) (second : Keeps later last) :
    Keeps labels last := fun _ _ found => second _ _ (first _ _ found)

theorem Keeps.map (keeps : Keeps labels later) {numbers : List Nat}
    (found : numbers.map some = edges.map labels.get?) :
    numbers.map some = edges.map later.get? := by
  induction edges generalizing numbers with
  | nil => exact found
  | cons edge rest ih =>
      cases numbers with
      | nil => simp at found
      | cons number others =>
          obtain ⟨here, foundRest⟩ := List.cons.inj found
          rw [List.map_cons, List.map_cons, ih foundRest, keeps edge number here.symm]

theorem numbers_empty : Numbers ∅ [] where
  known edge := by simp
  bounded found := by simp at found
  injective found := by simp at found
  onto number below := by simp at below

theorem get?_insert_size :
    (labels.insert edge labels.size).get? edge' =
      if edge = edge' then some labels.size else labels.get? edge' := by
  by_cases same : edge = edge'
  · subst same
    simp
  · have different : Edge.compare edge edge' ≠ .eq := fun equal =>
      same (Edge.compare_eq_eq_iff.mp equal)
    simp [Std.TreeMap.getElem?_insert, same, different]

/-- A new edge gets the next number. -/
theorem Numbers.insert (numbers : Numbers labels numbered) (fresh : labels.get? edge = none) :
    Numbers (labels.insert edge labels.size) (edge :: numbered) := by
  have size : (labels.insert edge labels.size).size = labels.size + 1 := by
    have absent : labels.contains edge = false := by
      rw [Std.TreeMap.contains_eq_isSome_getElem?]
      exact congrArg Option.isSome fresh
    rw [Std.TreeMap.size_insert, absent, if_neg (by simp)]
  constructor
  · intro edge'
    rw [get?_insert_size, List.mem_cons, ← numbers.known edge']
    by_cases same : edge = edge'
    · simp [same]
    · simp [same, Ne.symm same]
  · intro edge' number found
    rw [get?_insert_size] at found
    split at found
    · cases found
      omega
    · have := numbers.bounded found
      omega
  · intro edge' edge'' number found found'
    rw [get?_insert_size] at found found'
    split at found <;> split at found'
    · simp_all
    · cases found
      exact absurd (numbers.bounded found') (Nat.lt_irrefl _)
    · cases found'
      exact absurd (numbers.bounded found) (Nat.lt_irrefl _)
    · exact numbers.injective found found'
  · intro number below
    rw [size] at below
    rcases Nat.lt_succ_iff_lt_or_eq.mp below with earlier | rfl
    · obtain ⟨edge', found⟩ := numbers.onto number earlier
      have other : edge ≠ edge' := by
        rintro rfl
        rw [fresh] at found
        contradiction
      exact ⟨edge', by rw [get?_insert_size, if_neg other, found]⟩
    · exact ⟨edge, by rw [get?_insert_size, if_pos rfl]⟩

theorem Keeps.insert (fresh : labels.get? edge = none) :
    Keeps labels (labels.insert edge labels.size) := by
  intro edge' number found
  have other : edge ≠ edge' := by
    rintro rfl
    rw [fresh] at found
    contradiction
  rw [get?_insert_size, if_neg other, found]

theorem label_spec (numbers : Numbers labels numbered) (edge : Edge) :
    (labels.label edge).2.get? edge = some (labels.label edge).1 ∧
      Keeps labels (labels.label edge).2 ∧
      Numbers (labels.label edge).2 (edge :: numbered) := by
  rw [label]
  cases found : labels.get? edge with
  | some number =>
      refine ⟨found, Keeps.refl labels, { numbers with known := fun edge' => ?_ }⟩
      have member : edge ∈ numbered := (numbers.known edge).mp ⟨number, found⟩
      rw [numbers.known edge', List.mem_cons]
      exact ⟨.inr, fun either => either.elim (· ▸ member) id⟩
  | none =>
      refine ⟨?_, Keeps.insert found, numbers.insert found⟩
      rw [get?_insert_size, if_pos rfl]

theorem labelAll_spec (numbers : Numbers labels numbered) (edges : List Edge) :
    (labelAll edges labels).1.map some = edges.map (labelAll edges labels).2.get? ∧
      Keeps labels (labelAll edges labels).2 ∧
      ∃ known, Numbers (labelAll edges labels).2 known ∧
        ∀ edge, edge ∈ known ↔ edge ∈ edges ∨ edge ∈ numbered := by
  induction edges generalizing labels numbered with
  | nil => exact ⟨rfl, Keeps.refl labels, numbered, numbers, by simp⟩
  | cons edge rest ih =>
      obtain ⟨found, keeps, next⟩ := label_spec numbers edge
      obtain ⟨others, keepsRest, known, final, members⟩ := ih next
      refine ⟨?_, keeps.trans keepsRest, known, final, fun edge' => ?_⟩
      · simp only [labelAll, List.map_cons, others]
        rw [keepsRest edge _ found]
      · rw [members, List.mem_cons, List.mem_cons, or_left_comm, or_assoc]

/-- More edges are numbered after the others. -/
theorem labelAll_append (first second : List Edge) (labels : EdgeLabels) :
    labelAll (first ++ second) labels =
      ((labelAll first labels).1 ++ (labelAll second (labelAll first labels).2).1,
        (labelAll second (labelAll first labels).2).2) := by
  induction first generalizing labels with
  | nil => rfl
  | cons edge rest ih => simp only [List.cons_append, labelAll, ih]

/-- The numbers that a list of edges gets are those below the number of its edges. -/
theorem mem_labelAll_iff {edges : List Edge} :
    number ∈ (labelAll edges ∅).1 ↔ number < (labelAll edges ∅).2.size := by
  obtain ⟨found, -, known, numbers, members⟩ := labelAll_spec numbers_empty edges
  constructor
  · intro listed
    have labelled : some number ∈ edges.map (labelAll edges ∅).2.get? := by
      rw [← found]
      exact List.mem_map_of_mem listed
    obtain ⟨edge, -, labelled⟩ := List.mem_map.mp labelled
    exact numbers.bounded labelled
  · intro below
    obtain ⟨edge, labelled⟩ := numbers.onto number below
    have given : edge ∈ edges := by simpa [members] using (numbers.known edge).mp ⟨number, labelled⟩
    have listed : some number ∈ (labelAll edges ∅).1.map some := by
      rw [found, ← labelled]
      exact List.mem_map_of_mem given
    simpa using listed

variable {C : Type} [Cell C] {cells : List C} {cellFaces : Array (List Nat)}

/-- The edges around the given cells. -/
def edgesOf (cells : List C) : List Edge :=
  cells.flatMap (fun cell => (Cell.faces cell).map Segment.edge)

/-- The edges around the cells are numbered as one list. -/
theorem labelCells_flatten (cells : List C) (cellFaces : Array (List Nat)) (labels : EdgeLabels) :
    (labelCells cells cellFaces labels).1.toList.flatten =
        cellFaces.toList.flatten ++ (labelAll (edgesOf cells) labels).1 ∧
      (labelCells cells cellFaces labels).2 = (labelAll (edgesOf cells) labels).2 := by
  induction cells generalizing cellFaces labels with
  | nil => exact ⟨by simp [labelCells, edgesOf, labelAll], rfl⟩
  | cons cell rest ih =>
      obtain ⟨listed, sameLabels⟩ :=
        ih (cellFaces.push (labelAll ((Cell.faces cell).map Segment.edge) labels).1)
          (labelAll ((Cell.faces cell).map Segment.edge) labels).2
      have edges : edgesOf (cell :: rest) = (Cell.faces cell).map Segment.edge ++ edgesOf rest :=
        List.flatMap_cons
      constructor
      · rw [labelCells, listed, edges, labelAll_append]
        simp
      · rw [labelCells, sameLabels, edges, labelAll_append]

theorem labelCells_spec (numbers : Numbers labels numbered) (cells : List C)
    (cellFaces : Array (List Nat)) :
    ∃ faces : List (List Nat), (labelCells cells cellFaces labels).1.toList = cellFaces.toList ++ faces ∧
      faces.map (List.map some) = cells.map (fun cell => (Cell.faces cell).map
        (fun face => (labelCells cells cellFaces labels).2.get? face.edge)) ∧
      Keeps labels (labelCells cells cellFaces labels).2 ∧
      ∃ known, Numbers (labelCells cells cellFaces labels).2 known ∧
        ∀ edge, edge ∈ known ↔ edge ∈ edgesOf cells ∨ edge ∈ numbered := by
  induction cells generalizing labels numbered cellFaces with
  | nil => exact ⟨[], by simp [labelCells], rfl, Keeps.refl labels, numbered, numbers,
      by simp [edgesOf]⟩
  | cons cell rest ih =>
      obtain ⟨found, keeps, known, next, members⟩ :=
        labelAll_spec numbers ((Cell.faces cell).map Segment.edge)
      obtain ⟨faces, listed, labelled, keepsRest, known', final, members'⟩ :=
        ih next (cellFaces.push (labelAll ((Cell.faces cell).map Segment.edge) labels).1)
      refine ⟨(labelAll ((Cell.faces cell).map Segment.edge) labels).1 :: faces, ?_, ?_,
        keeps.trans keepsRest, known', final, fun edge => ?_⟩
      · rw [labelCells, listed]
        simp
      · simp only [labelCells, List.map_cons, labelled]
        rw [keepsRest.map found, List.map_map]
        rfl
      · rw [members', members]
        simp [edgesOf, or_comm, or_left_comm]

end EdgeLabels

end DofNumbering
