import DofNumbering.Proofs.Production
import DofNumbering.Proofs.Samples
import DofNumbering.Proofs.Sizes.Misreads
import DofNumbering.Proofs.Sizes.Strays

namespace DofNumbering

/-! What the sizes of a basis say about stems that no index continues. -/

/-- A blocked node has no child of the number in the stem. -/
def Fault.IsMissingChild : Fault → Prop
  | .powerChild _ _ | .compositeChild _ => True
  | _ => False

/-- If the basis counts something after the stem, it is the proper beginning of an index that
the basis produces, and if that fails, a blocked node does not have some child. -/
structure Basis.CountsProducedAfter (basis : Basis) (stem : List Nat) : Prop where
  missing : ∀ fault, basis.size stem = .error fault → fault.IsMissingChild
  produced : ∀ size, basis.size stem = .ok size → 0 < size →
    ∃ index, basis.Produces index ∧ stem <+: index ∧ stem ≠ index

/-- It does so after all stems. -/
def Basis.CountsProduced (basis : Basis) : Prop :=
  ∀ stem : List Nat, (∀ entry ∈ stem, entry < Index.limit) → basis.CountsProducedAfter stem

variable {R : Type} {mesh : TriangleMesh R} {view : MeshView R Triangle} {tag least : Nat}
  {grid : GridView} {basis : Basis} {numbering : Numbering} {index : MultiIndex}

theorem Description.mayFail.isMissingChild {description : Description} {fault : Fault}
    (permitted : description.mayFail fault) (other : fault ≠ .arithmetic) : fault.IsMissingChild := by
  cases fault with
  | arithmetic => exact other rfl
  | powerChild _ _ => trivial
  | compositeChild _ => trivial
  | _ => exact permitted.elim

theorem Basis.Answers.mayFail (answers : basis.Answers) {stem : List Nat} {fault : Fault}
    (fails : basis.size stem = .error fault) : basis.description.mayFail fault := by
  have answer := answers stem
  rw [fails] at answer
  cases answer with
  | fault permitted => exact permitted

theorem Basis.Answers.length_lt (answers : basis.Answers) {stem : List Nat} {size : Nat}
    (sized : basis.size stem = .ok size) (positive : 0 < size) :
    stem.length < basis.maxIndexLength := by
  have answer := answers stem
  rw [sized] at answer
  cases answer with
  | size short => exact short positive

theorem Numbered.countsProducedAfter {stem : List Nat}
    (numbered : Numbered grid least basis numbering) (covered : grid.Covered)
    (nonempty : 0 < grid.size 0) (roomDofs : numbering.dofs < Index.limit)
    (roomPlaces : numbering.places < Index.limit)
    (noOverflow : basis.size stem ≠ .error .arithmetic)
    (continued : ∀ size, basis.size stem = .ok size → 0 < size →
      numbering.OccursAfter (grid.size 0) stem) : basis.CountsProducedAfter stem := by
  refine ⟨fun fault fails => ?_, fun size sized positive => ?_⟩
  · have answers := numbered.answers (covered.vertices_pos nonempty) roomDofs
    refine (answers.mayFail fails).isMissingChild ?_
    rintro rfl
    exact noOverflow fails
  · obtain ⟨entry, rest, occurs⟩ := continued size sized positive
    refine ⟨stem ++ entry :: rest,
      (numbered.produces_iff_occurs covered roomDofs roomPlaces).mpr occurs,
      List.prefix_append .., fun same => ?_⟩
    simp at same

theorem Numbered.countsProduced (numbered : Numbered grid least basis numbering)
    (covered : grid.Covered) (nonempty : 0 < grid.size 0) (roomDofs : numbering.dofs < Index.limit)
    (roomPlaces : numbering.places < Index.limit)
    (described : basis.description.faithful false = true) : basis.CountsProduced := by
  intro stem _
  obtain ⟨noOverflow, continued⟩ :=
    numbered.faithful covered (covered.vertices_pos nonempty) roomDofs described stem nofun
  exact numbered.countsProducedAfter covered nonempty roomDofs roomPlaces noOverflow continued

/-- If the basis counts nothing after other stems, its description tells that. -/
theorem Basis.CountsProduced.faithful (counts : basis.CountsProduced) (covered : grid.Covered)
    (nonempty : 0 < grid.size 0) (numbered : Numbered grid 1 basis numbering)
    (roomTwice : 2 * numbering.dofs ≤ Index.limit) (roomDofs : numbering.dofs < Index.limit)
    (roomPlaces : numbering.places < Index.limit) : basis.description.faithful false = true := by
  by_contra unfaithful
  obtain ⟨first, rest, -, small, outside, size, sized, positive⟩ :=
    numbered.exists_stray covered nonempty roomDofs (Bool.eq_false_of_not_eq_true unfaithful)
  obtain ⟨-, continued⟩ := counts (first :: rest)
    (fun entry inStem => (small entry inStem).trans_le roomTwice)
  obtain ⟨index, produced, isPrefix, -⟩ := continued size sized positive
  have occurs := (numbered.produces_iff_occurs covered roomDofs roomPlaces).mp produced
  have whole := (numbered.covers covered nonempty).occurs_iff.mp occurs
  obtain ⟨sub, found⟩ := IndexTree.exists_at?_iff.mpr ⟨index, whole, isPrefix⟩
  exact absurd (outside.symm.trans found) nofun

/-- Sizes only fail at missing children, or by a division in flat interleaved powers without
copies, and they are zero after as many entries as an index can have.  What is counted after
a stem with entries out of range comes from nodes that misread it.  If all powers have copies,
everything else that is counted are entries of indices, and beginnings of indices are not
misread.  Whether some stem is counted that begins no index can be read off the description,
exactly so if all powers have copies. -/
theorem countsProduced_iff_faithful (viewed : MeshView.ofMesh mesh = .ok view)
    (nonempty : mesh.cells ≠ []) (numbered : Numbered (view.toGridView tag) least basis numbering)
    (roomDofs : numbering.dofs < Index.limit) (roomPlaces : numbering.places < Index.limit) :
    (∀ stem fault, basis.size stem = .error fault → basis.description.mayFail fault) ∧
    (∀ stem size, basis.size stem = .ok size → 0 < size → stem.length < basis.maxIndexLength) ∧
    (∀ stem, basis.CountsWithin stem ∨ basis.Misreads least stem) ∧
    (0 < least → ∀ stem, (basis.CountsProducedAfter stem ∨ basis.Misreads least stem) ∧
      ∀ index, basis.Produces index → stem <+: index → ¬ basis.Misreads least stem) ∧
    (basis.description.faithful false = true → basis.CountsProduced) ∧
    (0 < least → 2 * numbering.dofs ≤ Index.limit →
      (basis.CountsProduced ↔ basis.description.faithful false = true)) := by
  have covered := @MeshView.covered _ _ _ tag viewed
  have elements : 0 < (view.toGridView tag).size 0 :=
    Nat.lt_of_lt_of_eq (List.length_pos_iff.mpr nonempty) (MeshView.size_zero viewed).symm
  have vertices := covered.vertices_pos elements
  have answers := numbered.answers vertices roomDofs
  have within := numbered.countsWithin_or_misreads vertices roomDofs
  have counts := numbered.countsProduced covered elements roomDofs roomPlaces
  refine ⟨fun stem fault => answers.mayFail, fun stem size => answers.length_lt, within,
    fun positive stem => ⟨(within stem).imp_left (fun within => ?_),
      fun index produced isPrefix misreads => ?_⟩,
    counts, fun positive roomTwice => ⟨fun counts => ?_, counts⟩⟩
  · have withCopies := numbered.mono positive
    exact withCopies.countsProducedAfter covered elements roomDofs roomPlaces within.noOverflow
      (fun size sized some => withCopies.occursAfter_of_withinSizes covered elements roomDofs
        (within.within size sized some) sized some)
  · have occurs := (numbered.produces_iff_occurs covered roomDofs roomPlaces).mp produced
    exact (misreads.exceeds positive).not_withinSizes
      ((numbered.mono positive).withinSizes_of_occurs covered elements roomDofs occurs isPrefix)
  · exact counts.faithful covered elements (numbered.mono positive) roomTwice roomDofs roomPlaces

/-- Copies with the number of the copy as the last entry count nothing else inside of a flat
composite, but they do on their own. -/
theorem countsProduced_iff_faithful_pair :
    Sample.pair.toBasis.CountsProduced ∧ ¬ Sample.doubled.CountsProduced := by
  obtain ⟨numbering, numbered⟩ := Sample.pair_built.exists_numbering
  have has := numbered.hasNumbering_of_mesh Sample.square_viewed Sample.square_distinct
    (by decide) Sample.pair_dimension (by decide)
  have doubled : Numbered (Sample.triangleView.toGridView 0) 1 Sample.doubled _ :=
    .power _ 2 (by decide) (.lagrange Sample.corner_created)
  obtain ⟨-, -, -, -, -, exact'⟩ := countsProduced_iff_faithful Sample.triangle_viewed (by decide) doubled
    (by decide) (by decide)
  refine ⟨(countsProduced_iff_faithful Sample.square_viewed (by decide) numbered
    (has.dofs ▸ by decide) has.places).2.2.2.2.1 (by decide), fun counts => ?_⟩
  exact absurd ((exact' (by decide) (by decide)).mp counts) (by decide)

/-- On the mesh of one triangle: an entry out of range that is taken for a vertex, another one
that is wrapped to the first copy, and a division by the number of copies. -/
theorem corner_counts_outside :
    Built (Sample.triangleView.toGridView 0) 1 Sample.doubled ∧ Sample.doubled.size [3] = .ok 2 ∧
    (¬ ∃ index, Sample.doubled.Produces index ∧ [3] <+: index) ∧
    Built (Sample.triangleView.toGridView 0) 1 Sample.wrapped ∧ Sample.wrapped.size [6] = .ok 2 ∧
    (¬ ∃ index, Sample.wrapped.Produces index ∧ [6] <+: index) ∧
    Built (Sample.triangleView.toGridView 0) 0 Sample.vacant ∧
    Sample.vacant.size [0] = .error .arithmetic := by
  have covered := @MeshView.covered _ _ _ 0 Sample.triangle_viewed
  have outside : ∀ {basis numbering} {entry : Nat},
      Numbered (Sample.triangleView.toGridView 0) 1 basis numbering →
      numbering.dofs < Index.limit → numbering.places < Index.limit → numbering.root ≤ entry →
      ¬ ∃ index, basis.Produces index ∧ [entry] <+: index := by
    rintro basis numbering entry numbered roomDofs roomPlaces isOutside ⟨_, produced, rest, rfl⟩
    obtain ⟨first, _, equal, below⟩ :=
      numbered.exists_first_of_produces covered roomDofs roomPlaces produced
    obtain ⟨rfl, -⟩ := List.cons.inj equal
    omega
  have linear : Built (Sample.triangleView.toGridView 0) 1 Sample.corner.toBasis :=
    .lagrange Sample.corner_created
  have doubled : Numbered (Sample.triangleView.toGridView 0) 1 Sample.doubled _ :=
    .power _ 2 (by decide) (.lagrange Sample.corner_created)
  have wrapped : Numbered (Sample.triangleView.toGridView 0) 1 Sample.wrapped _ :=
    .power _ 2 (by decide) doubled
  exact ⟨.power _ 2 (by decide) linear, rfl, outside doubled (by decide) (by decide) (by decide),
    .power _ 2 (by decide) (.power _ 2 (by decide) linear), rfl,
    outside wrapped (by decide) (by decide) (by decide),
    .power _ 0 (by decide) (linear.mono (by decide)), rfl⟩

end DofNumbering
