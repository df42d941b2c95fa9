import DofNumbering.Proofs.Offsets
import DofNumbering.Proofs.Production
import DofNumbering.Proofs.Samples

namespace DofNumbering

/-! Flattening computes ranks, whatever offsets are known before. -/

variable {basis : Basis} {index : MultiIndex}

namespace Basis.Countable

variable {tree : IndexTree} (countable : basis.Countable basis.maxIndexLength tree)

include countable

theorem flattenIndex_eq (fine : ¬ tree.Overflows index) :
    basis.flattenIndex index = .ok (tree.rank? index) := by
  obtain ⟨next, run, -⟩ := Flattener.knows_create.exists_flatten countable fine
  rw [Basis.flattenIndex, run, ok_bind]

theorem flattenIndex_eq_ok {rank : Nat} (ranked : tree.rank? index = some rank) :
    basis.flattenIndex index = .ok (some rank) := by
  have whole := IndexTree.exists_rank?_iff_whole.mp ⟨rank, ranked⟩
  rw [countable.flattenIndex_eq (IndexTree.not_overflows_of_small (countable.small whole)), ranked]

end Basis.Countable

namespace Basis.HasIndices

variable {numbering : Numbering} {dimension : Nat} (numbered : basis.HasIndices numbering dimension)
  (room : dimension < Index.limit - 1)

include numbered room

/-- No stem has more entries than there are degrees of freedom. -/
theorem countable : basis.Countable basis.maxIndexLength numbering.tree where
  follows stem _ found := numbered.describes.sizedBy stem _ (IndexTree.size?_of_at? found)
  bounded stem sub found := by
    have le := sub.count_le_total.trans (IndexTree.total_le_of_at? found)
    rw [numbered.total_eq] at le
    omega
  deep := numbered.describes.hasDepth.bound
  room := by
    rw [numbered.total_eq]
    omega

theorem flattenIndex_eq_ok (produced : basis.Produces index) :
    basis.flattenIndex index = .ok (some (numbering.tree.rank index)) :=
  (numbered.countable room).flattenIndex_eq_ok
    (IndexTree.rank?_eq_rank (numbered.produces_iff.mp produced))

end Basis.HasIndices

section Ranks

variable {R : Type} {mesh : TriangleMesh R} {view : MeshView R Triangle} {tag dimension : Nat}

/-- On the produced indices, flattening is the rank in the lexicographic order, for a
new flattener and for one that has been used before. -/
theorem flatten_computes_ranks (viewed : MeshView.ofMesh mesh = .ok view)
    (distinct : mesh.Distinct) (nonempty : mesh.cells ≠ [])
    (built : Built (view.toGridView tag) 1 basis)
    (counted : basis.dimension = .ok dimension) (room : dimension < Index.limit - 1) :
    ∃ rank : MultiIndex → Nat,
      (∀ flattener, Flattener.ReachedFrom basis flattener →
        (∀ index : MultiIndex, (∀ entry ∈ index, entry + 1 < Index.limit) →
          ∃ flat next, flattener.flatten index = .ok (flat, next)) ∧
        ∀ index, basis.Produces index →
          ∃ next, flattener.flatten index = .ok (some (rank index), next)) ∧
      (∀ index, basis.Produces index → basis.flattenIndex index = .ok (some (rank index))) ∧
      Set.BijOn rank {index | basis.Produces index} {flat | flat < dimension} ∧
      (∀ index index', basis.Produces index → basis.Produces index' →
        MultiIndex.compare index index' = .lt → rank index < rank index') ∧
      ∀ index, basis.Produces index →
        {other | basis.Produces other ∧ MultiIndex.compare other index = .lt}.ncard =
          rank index := by
  obtain ⟨numbering, -, numbered⟩ :=
    built.exists_hasNumbering_of_mesh viewed distinct nonempty counted (by omega)
  have countable := numbered.countable room
  refine ⟨numbering.tree.rank, fun flattener reached => ?_,
    fun index produced => numbered.flattenIndex_eq_ok room produced, ?_, ?_, ?_⟩
  · have knows := reached.knows countable
    refine ⟨fun index small => ?_, fun index produced => ?_⟩
    · obtain ⟨next, run, -⟩ :=
        knows.exists_flatten countable (IndexTree.not_overflows_of_small small)
      exact ⟨_, next, run⟩
    · have whole := numbered.produces_iff.mp produced
      obtain ⟨next, run, -⟩ := knows.exists_flatten countable
        (IndexTree.not_overflows_of_small (countable.small whole))
      exact ⟨next, by rw [run, IndexTree.rank?_eq_rank whole]⟩
  · simp only [numbered.produces_iff, ← numbered.total_eq]
    exact IndexTree.rank_bijOn
  · intro index index' produced produced' lower
    rw [numbered.produces_iff] at produced produced'
    exact IndexTree.rank?_lt_of_compare_lt (IndexTree.rank?_eq_rank produced)
      (IndexTree.rank?_eq_rank produced') lower
  · intro index produced
    rw [numbered.produces_iff] at produced
    simp only [numbered.produces_iff]
    exact IndexTree.ncard_lower produced

/-- Indices of different lengths, flattened after an index that is not the one of a
degree of freedom. -/
theorem flatten_computes_ranks_square : ∃ rank : MultiIndex → Nat, ∃ next,
    (Flattener.create Sample.pair.toBasis).flatten [3] = .ok (none, next) ∧
      Set.BijOn rank {index | Sample.pair.toBasis.Produces index} {flat | flat < 17} ∧
      ∀ index, Sample.pair.toBasis.Produces index →
        ∃ last, next.flatten index = .ok (some (rank index), last) := by
  obtain ⟨rank, reached, -, bijection, -⟩ := flatten_computes_ranks Sample.square_viewed
    Sample.square_distinct (by decide) Sample.pair_built Sample.pair_dimension (by decide)
  have small : ∀ entry ∈ [3], entry + 1 < Index.limit := by decide
  obtain ⟨next, run⟩ : ∃ next, (Flattener.create Sample.pair.toBasis).flatten [3] = .ok (none, next) :=
    ⟨_, rfl⟩
  exact ⟨rank, next, run, bijection, (reached next (.flatten .create small run)).2⟩

end Ranks

end DofNumbering
