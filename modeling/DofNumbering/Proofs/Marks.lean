import DofNumbering.Grid.Mesh

namespace DofNumbering

/-! Marked places and their numbers.

The marked places are numbered in ascending order: the number of a marked place
is the count of the marked places before it.
-/

namespace Index

variable {size place : Nat} {numbers : List Nat}

theorem getElem?_foldl_marks {table : Array Bool} :
    (numbers.foldl (fun marked number => marked.setIfInBounds number true) table)[place]? =
      table[place]?.map (fun old => old || decide (place ∈ numbers)) := by
  induction numbers generalizing table with
  | nil => simp
  | cons first rest ih =>
      rw [List.foldl_cons, ih]
      by_cases same : first = place
      · subst same
        by_cases inBounds : first < table.size
        · simp [inBounds]
        · simp [inBounds]
      · rw [Array.getElem?_setIfInBounds_ne same]
        simp [Ne.symm same]

theorem getElem?_marks :
    (marks size numbers)[place]? = if place < size then some (decide (place ∈ numbers)) else none := by
  rw [marks, getElem?_foldl_marks]
  by_cases inBounds : place < size <;> simp [inBounds]

theorem size_marks : (marks size numbers).size = size := by
  rw [marks]
  suffices ∀ table : Array Bool, (numbers.foldl
      (fun marked number => marked.setIfInBounds number true) table).size = table.size by
    rw [this, Array.size_replicate]
  intro table
  induction numbers generalizing table with
  | nil => rfl
  | cons first rest ih => rw [List.foldl_cons, ih, Array.size_setIfInBounds]

end Index

section Ranks

variable {marks : List Bool} {i j number : Nat}

theorem count_take_lt_count (marked : marks[i]? = some true) :
    (marks.take i).count true < marks.count true := by
  have split : marks = marks.take i ++ true :: marks.drop (i + 1) := by
    rw [← (List.getElem?_eq_some_iff.mp marked).2, ← List.drop_eq_getElem_cons,
      List.take_append_drop]
  have counted := congrArg (List.count true) split
  rw [List.count_append, List.count_cons_self] at counted
  omega

theorem count_take_lt_count_take (marked : marks[i]? = some true) (earlier : i < j) :
    (marks.take i).count true < (marks.take j).count true := by
  have inTake : (marks.take j)[i]? = some true := by
    rw [List.getElem?_take_of_lt earlier, marked]
  have less := count_take_lt_count inTake
  rwa [List.take_take, Nat.min_eq_left (Nat.le_of_lt earlier)] at less

theorem count_take_injective (marked : marks[i]? = some true) (marked' : marks[j]? = some true)
    (equal : (marks.take i).count true = (marks.take j).count true) : i = j := by
  rcases Nat.lt_trichotomy i j with earlier | same | later
  · exact absurd equal (Nat.ne_of_lt (count_take_lt_count_take marked earlier))
  · exact same
  · exact absurd equal.symm (Nat.ne_of_lt (count_take_lt_count_take marked' later))

theorem exists_marked (below : number < marks.count true) :
    ∃ i, marks[i]? = some true ∧ (marks.take i).count true = number := by
  induction marks generalizing number with
  | nil => simp at below
  | cons mark rest ih =>
      cases mark with
      | false =>
          obtain ⟨i, marked, counted⟩ := ih (by simpa using below)
          exact ⟨i + 1, marked, by simpa using counted⟩
      | true =>
          cases number with
          | zero => exact ⟨0, rfl, rfl⟩
          | succ number =>
              obtain ⟨i, marked, counted⟩ := @ih number (by simpa using below)
              exact ⟨i + 1, marked, by simpa using counted⟩

variable {next : Nat} {labels : Array (Option Nat)}

theorem MeshView.getElem?_labelMarked_of_lt (before : i < labels.size) :
    (labelMarked marks next labels)[i]? = labels[i]? := by
  induction marks generalizing next labels with
  | nil => rfl
  | cons mark rest ih =>
      have kept : ∀ label, (labels.push label)[i]? = labels[i]? := fun label => by
        rw [Array.getElem?_push, if_neg (Nat.ne_of_lt before)]
      cases mark <;> rw [labelMarked, ih (by simp; omega), kept]

theorem MeshView.getElem?_labelMarked_eq :
    (labelMarked marks next labels)[labels.size + i]? = marks[i]?.map
      (fun mark => if mark then some (next + (marks.take i).count true) else none) := by
  induction marks generalizing i next labels with
  | nil => simp [labelMarked]
  | cons mark rest ih =>
      cases i with
      | zero => cases mark <;> rw [labelMarked, getElem?_labelMarked_of_lt (by simp)] <;> simp
      | succ i =>
          have position : ∀ label, labels.size + (i + 1) = (labels.push label).size + i := fun label => by
            rw [Array.size_push]
            omega
          cases mark with
          | false =>
              rw [labelMarked, position none, ih]
              simp
          | true =>
              rw [labelMarked, position (some next), ih]
              simp [Nat.add_assoc, Nat.add_comm 1]

theorem MeshView.getElem?_labelMarked (marked : marks[i]? = some true) :
    (labelMarked marks next labels)[labels.size + i]? =
      some (some (next + (marks.take i).count true)) := by
  rw [getElem?_labelMarked_eq, marked]
  rfl

end Ranks

end DofNumbering
