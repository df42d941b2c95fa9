import DofNumbering.Proofs.Flattening
import DofNumbering.Proofs.Verdict

namespace DofNumbering

/-! The coverage check accepts every built basis whose local indices it can count.

The indices on all elements are the whole indices of the tree, so nothing is wrong
with them.
-/

namespace Coverage

variable {basis : Basis} {numbering : Numbering} {dimension maximum depth : Nat} {tree : IndexTree}

/-- The indices that a numbering has on each of the first elements. -/
def indicesOn (numbering : Numbering) (numElements : Nat) : List (List MultiIndex) :=
  (List.range numElements).map (fun element =>
    (List.range numbering.size).map (numbering.index element))

theorem mem_of_mem_indicesOn {numElements : Nat} {indices : List MultiIndex}
    (inElements : indices ∈ indicesOn numbering numElements) : ∃ element < numElements,
      indices = (List.range numbering.size).map (numbering.index element) := by
  obtain ⟨element, inRange, rfl⟩ := List.mem_map.mp inElements
  exact ⟨element, List.mem_range.mp inRange, rfl⟩

theorem report_indicesOn {numElements : Nat} (nonempty : 0 < numElements) :
    report dimension (indicesOn numbering numElements) =
      ⟨dimension, numElements * numbering.size, numbering.size⟩ := by
  have sizes : (indicesOn numbering numElements).map List.length =
      List.replicate numElements numbering.size := by
    simp [indicesOn, Function.comp_def, List.map_const']
  have largest : ∀ count, (List.replicate count numbering.size).foldl max numbering.size =
      numbering.size := by
    intro count
    induction count with
    | zero => rfl
    | succ count ih => rw [List.replicate_succ, List.foldl_cons, Nat.max_self, ih]
  obtain ⟨others, rfl⟩ := Nat.exists_eq_succ_of_ne_zero (Nat.ne_of_gt nonempty)
  rw [report, sizes, List.sum_replicate_nat, List.replicate_succ, List.foldl_cons, Nat.zero_max,
    largest]

theorem whole_of_mem_indicesOn (numbered : basis.HasNumbering numbering dimension)
    {indices : List MultiIndex} (inElements : indices ∈ indicesOn numbering (basis.grid.size 0))
    {index : MultiIndex} (inIndices : index ∈ indices) : numbering.tree.Whole index := by
  obtain ⟨element, inGrid, rfl⟩ := mem_of_mem_indicesOn inElements
  obtain ⟨j, inRange, rfl⟩ := List.mem_map.mp inIndices
  exact numbered.lawful.whole element inGrid j (List.mem_range.mp inRange)

/-- Every index is whole, different ones of an element have different places, and every
whole index is on some element. -/
theorem violations_indicesOn (numbered : basis.HasNumbering numbering dimension) :
    violations numbering.tree.rank? dimension numbering.size
      (indicesOn numbering (basis.grid.size 0)) = [] := by
  refine violations_eq_nil_iff.mpr ⟨fun indices inElements => ?_, fun indices inElements index
    inIndices => ?_, fun indices inElements => ?_, fun number below => ?_⟩
  · obtain ⟨element, -, rfl⟩ := mem_of_mem_indicesOn inElements
    simp
  · have ranked := IndexTree.rank?_eq_rank (whole_of_mem_indicesOn numbered inElements inIndices)
    exact ⟨_, numbered.total_eq ▸ IndexTree.rank?_lt_total ranked, ranked⟩
  · obtain ⟨element, inGrid, rfl⟩ := mem_of_mem_indicesOn inElements
    exact numbered.lawful.indices_nodup inGrid
  · obtain ⟨index, ranked⟩ := IndexTree.exists_rank?_eq_some (numbered.total_eq.symm ▸ below)
    obtain ⟨element, inGrid, j, inRange, rfl⟩ :=
      numbered.lawful.onto index (IndexTree.exists_rank?_iff_whole.mp ⟨number, ranked⟩)
    exact ⟨_, List.mem_map_of_mem (List.mem_range.mpr inGrid), _,
      List.mem_map_of_mem (List.mem_range.mpr inRange), ranked⟩

/-- The check looks at the indices that the numbering of a basis has, and counts them. -/
theorem finds_check_indicesOn (countable : basis.Countable depth tree)
    (counted : basis.dimension = .ok dimension) (sized : basis.maxNodeSize = .ok maximum)
    (realizes : ∀ element < basis.grid.size 0, basis.Realizes numbering element)
    (places : numbering.places < Index.limit)
    (whole : ∀ element < basis.grid.size 0, ∀ j < numbering.size,
      tree.Whole (numbering.index element j))
    (nonempty : 0 < basis.grid.size 0) :
    Finds (basis.grid.size 0 * numbering.size < Index.limit)
      (violations tree.rank? dimension maximum (indicesOn numbering (basis.grid.size 0)))
      (fun coverage =>
        coverage = ⟨dimension, basis.grid.size 0 * numbering.size, numbering.size⟩ ∧
          basis.grid.size 0 * numbering.size < Index.limit)
      (check basis depth) := by
  have reported := @report_indicesOn numbering dimension _ nonempty
  have total : ((indicesOn numbering (basis.grid.size 0)).map List.length).sum =
      basis.grid.size 0 * numbering.size := congrArg numLocalIndices reported
  have new : (LocalView.create basis).Of basis := LocalView.of_create (realizes 0 nonempty)
  have bare : (LocalIndexSet.create basis).basis = basis := rfl
  obtain ⟨shown, visits, shows⟩ := @Traversal.exists_visits basis numbering (.create basis)
    (List.range (basis.grid.size 0)) realizes places (fun _ => List.mem_range.mp) new bare
  have showsLists : List.Forall₂ ShowsList shown (indicesOn numbering (basis.grid.size 0)) := by
    refine List.forall₂_map_right_iff.mpr (shows.flip.imp (fun pair element there => ⟨?_, ?_⟩))
    · rw [there.boundSize_eq_ok, List.length_map, List.length_range]
    · exact there.indices_eq_ok
  rw [← reported, ← total]
  refine finds_check countable counted sized visits showsLists
    (fun indices inElements index inIndices => ?_)
  obtain ⟨element, inGrid, rfl⟩ := mem_of_mem_indicesOn inElements
  obtain ⟨j, inRange, rfl⟩ := List.mem_map.mp inIndices
  exact countable.small (whole element inGrid j (List.mem_range.mp inRange))

/-- On a grid with elements the check finds nothing wrong.  It stops if there are too many local
indices to be counted. -/
theorem check_eq (numbered : basis.HasNumbering numbering dimension)
    (roomDofs : dimension < Index.limit - 1) (counted : basis.dimension = .ok dimension)
    (sized : basis.maxNodeSize = .ok numbering.size) (nonempty : 0 < basis.grid.size 0) :
    check basis =
      if basis.grid.size 0 * numbering.size < Index.limit then
        .ok ⟨dimension, basis.grid.size 0 * numbering.size, numbering.size⟩
      else .error (.fault .arithmetic) := by
  have checked := finds_check_indicesOn (numbered.countable roomDofs) counted sized
    numbered.realizes numbered.places numbered.lawful.whole nonempty
  rw [violations_indicesOn numbered] at checked
  rcases checked.eq_ok_or with ⟨_, run, rfl, room⟩ | ⟨tooMany, run⟩
  · rw [run, if_pos room]
  · rw [run, if_neg tooMany]

theorem check_eq_ok_iff (numbered : basis.HasNumbering numbering dimension)
    (roomDofs : dimension < Index.limit - 1) (counted : basis.dimension = .ok dimension)
    (sized : basis.maxNodeSize = .ok numbering.size) (nonempty : 0 < basis.grid.size 0)
    {report : Coverage} :
    check basis = .ok report ↔
      report = ⟨dimension, basis.grid.size 0 * numbering.size, numbering.size⟩ ∧
      basis.grid.size 0 * numbering.size < Index.limit := by
  rw [check_eq numbered roomDofs counted sized nonempty]
  split <;> simp_all [eq_comm]

end Coverage

section Meshes

variable {R : Type} {mesh : TriangleMesh R} {view : MeshView R Triangle} {basis : Basis}
  {dimension size tag : Nat}

end Meshes

end DofNumbering
