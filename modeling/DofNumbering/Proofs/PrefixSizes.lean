import DofNumbering.Proofs.Production
import DofNumbering.Proofs.Samples

namespace DofNumbering

/-! The sizes of a basis describe the indices that it produces. -/

variable {R : Type} {mesh : TriangleMesh R} {view : MeshView R Triangle} {basis : Basis}
  {dimension tag : Nat}

/-- The size after a beginning of a produced index counts the entries that continue it. -/
theorem size_counts_continuations (viewed : MeshView.ofMesh mesh = .ok view)
    (distinct : mesh.Distinct) (nonempty : mesh.cells ≠ [])
    (built : Built (view.toGridView tag) 1 basis)
    (counted : basis.dimension = .ok dimension) (room : dimension < Index.limit) :
    (∀ element < basis.grid.size 0, ∃ view set, bindFresh basis element = .ok (view, set)) ∧
    (∀ stem, (∃ index, basis.Produces index ∧ stem <+: index) →
      ∃ size, basis.size stem = .ok size ∧ (size = 0 ↔ basis.Produces stem) ∧
        ∀ entry, (∃ index, basis.Produces index ∧ stem ++ [entry] <+: index) ↔ entry < size) ∧
    (∀ index index', basis.Produces index → basis.Produces index' → index <+: index' →
      index = index') ∧
    (∀ index, basis.Produces index → 1 ≤ index.length ∧ index.length ≤ basis.maxIndexLength) ∧
    ∃ index, basis.Produces index ∧ index.length = basis.maxIndexLength := by
  obtain ⟨numbering, -, numbered⟩ :=
    built.exists_hasNumbering_of_mesh viewed distinct nonempty counted room
  have produces := fun index => @Basis.HasIndices.produces_iff _ _ _ index numbered.toHasIndices
  have deep := numbered.describes.hasDepth
  simp only [produces]
  refine ⟨fun element inGrid => ?_, fun stem isPrefix => ?_, fun index index' whole whole' => ?_,
    fun index whole => ⟨?_, deep.bound index whole⟩, deep.attained⟩
  · obtain ⟨view, set, bound, -⟩ := numbered.exists_bindFresh inGrid
    exact ⟨view, set, bound⟩
  · obtain ⟨sub, found⟩ := IndexTree.exists_at?_iff.mpr isPrefix
    have wholeStem := @IndexTree.whole_of_at? _ _ stem [] found
    rw [List.append_nil] at wholeStem
    exact ⟨sub.count, numbered.describes.sizedBy stem _ (IndexTree.size?_of_at? found),
      wholeStem.symm, fun entry => IndexTree.extends_iff_lt_count found⟩
  · rintro ⟨rest, rfl⟩
    rw [IndexTree.eq_nil_of_whole_append whole whole', List.append_nil]
  · obtain ⟨entry, rest, rfl, -⟩ := IndexTree.exists_cons_of_whole numbered.lawful.branching whole
    exact Nat.succ_le_succ (Nat.zero_le _)

/-- Two kinds of copies of a basis whose indices have different lengths. -/
theorem size_counts_continuations_square :
    Sample.square.Distinct ∧ Built (Sample.squareView.toGridView 0) 1 Sample.pair.toBasis ∧
    (∀ stem, (∃ index, Sample.pair.toBasis.Produces index ∧ stem <+: index) →
      ∃ size, Sample.pair.size stem = .ok size ∧ (size = 0 ↔ Sample.pair.toBasis.Produces stem) ∧
        ∀ entry, (∃ index, Sample.pair.toBasis.Produces index ∧ stem ++ [entry] <+: index) ↔
          entry < size) :=
  ⟨Sample.square_distinct, Sample.pair_built,
    (size_counts_continuations Sample.square_viewed Sample.square_distinct (by decide)
      Sample.pair_built rfl (by decide : 17 < Index.limit)).2.1⟩

end DofNumbering
