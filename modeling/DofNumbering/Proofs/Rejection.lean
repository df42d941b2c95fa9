import DofNumbering.Proofs.Flattening

namespace DofNumbering

/-! Lists that are not the index of a degree of freedom.

A flattener gives them no number, whatever it knows.  One thing can stop it before it gives
an answer: an entry that cannot be increased, right behind a list within the sizes.
-/

/-- Right behind a list within the sizes there is the largest of all entries. -/
def MultiIndex.ReachesLimit (size : List Nat → Except Fault Nat) (index : MultiIndex) : Prop :=
  ∃ stem rest, index = stem ++ (Index.limit - 1) :: rest ∧ WithinSizes size stem

/-- The flatteners of a basis after any calls that gave an answer. -/
inductive Flattener.Reachable (basis : Basis) : Flattener → Prop where
  | create : Reachable basis (create basis)
  | flatten {flattener next : Flattener} {index : MultiIndex} {flat : Option Nat}
      (reachable : Reachable basis flattener)
      (run : flattener.flatten index = .ok (flat, next)) : Reachable basis next

variable {basis : Basis} {tree sub : IndexTree} {known : Offsets} {stem rest index : MultiIndex}
  {size : List Nat → Except Fault Nat} {entry depth dimension : Nat} {numbering : Numbering}
  {flattener : Flattener}

section Limit

theorem MultiIndex.not_reachesLimit_nil : ¬ ReachesLimit size [] := by
  rintro ⟨stem, rest, equal, -⟩
  simp at equal

theorem MultiIndex.reachesLimit_cons_iff : ReachesLimit size (entry :: rest) ↔
    entry = Index.limit - 1 ∨ (∃ bound, size [] = .ok bound ∧ entry < bound) ∧
      ReachesLimit (fun stem => size (entry :: stem)) rest := by
  constructor
  · rintro ⟨stem, rest', equal, within⟩
    cases stem with
    | nil => exact .inl (List.cons.inj equal).1
    | cons first stem =>
        obtain ⟨rfl, rfl⟩ := List.cons.inj equal
        obtain ⟨inRange, withinRest⟩ := withinSizes_cons_iff.mp within
        exact .inr ⟨inRange, stem, rest', rfl, withinRest⟩
  · rintro (rfl | ⟨inRange, stem, rest', rfl, within⟩)
    · exact ⟨[], rest, rfl, withinSizes_nil⟩
    · exact ⟨entry :: stem, rest', rfl, withinSizes_cons_iff.mpr ⟨inRange, within⟩⟩

theorem MultiIndex.not_reachesLimit_of_small (small : ∀ entry ∈ index, entry + 1 < Index.limit) :
    ¬ ReachesLimit size index := by
  rintro ⟨stem, rest, rfl, -⟩
  have := small (Index.limit - 1) (by simp)
  omega

/-- Among representable entries only the largest one cannot be increased. -/
theorem IndexTree.overflows_iff (follows : tree.Follows size)
    (representable : ∀ entry ∈ index, entry < Index.limit) :
    tree.Overflows index ↔ MultiIndex.ReachesLimit size index := by
  induction index generalizing tree size with
  | nil => exact iff_of_false id MultiIndex.not_reachesLimit_nil
  | cons entry rest ih =>
      have below := representable entry List.mem_cons_self
      have largest : Index.limit ≤ entry + 1 ↔ entry = Index.limit - 1 := by omega
      rw [Overflows, MultiIndex.reachesLimit_cons_iff, follows [] tree rfl, largest]
      by_cases inRange : entry < tree.count
      · simp [inRange, ih (follows.block inRange)
          (fun other inRest => representable other (List.mem_cons_of_mem _ inRest))]
      · simp [inRange]

end Limit

namespace Flattener

/-- Where the offsets are counted up to an entry that cannot be increased, flattening stops
at this entry. -/
theorem flattenFrom_eq_error (countable : basis.Countable depth tree) {flat : Nat}
    (found : tree.at? stem = some sub) (overflow : sub.Overflows rest)
    (room : flat + sub.total < Index.limit) (of : known.Of tree) :
    flattenFrom basis depth stem rest flat known = .error .arithmetic := by
  induction rest generalizing stem sub flat known with
  | nil => exact overflow.elim
  | cons entry rest ih =>
      have bound : ∀ rest, sub.Whole rest → rest.length ≤ depth := by
        intro rest whole
        have deep := countable.deep _ ((IndexTree.whole_of_at? found).mpr whole)
        rw [List.length_append] at deep
        omega
      obtain ⟨⟨offsets, known'⟩, counted, hasOffsets, of'⟩ :=
        gives_offsetsBelow countable found bound of
      rw [flattenFrom, counted, ok_bind]
      dsimp only
      by_cases large : Index.limit ≤ entry + 1
      · rw [Index.add, if_neg (Nat.not_lt_of_le large)]
        rfl
      · obtain ⟨inRange, overRest⟩ := overflow.resolve_left large
        have le := IndexTree.before_succ_le_total inRange
        have next : Index.add entry 1 = .ok (entry + 1) :=
          Index.add_eq_ok_iff.mpr ⟨Nat.lt_of_not_le large, rfl⟩
        have added : Index.add flat (sub.before entry) = .ok (flat + sub.before entry) :=
          Index.add_eq_ok_iff.mpr ⟨by omega, rfl⟩
        rw [next, ok_bind, hasOffsets.size, if_neg (by omega),
          Index.lookUp_eq_ok_iff.mpr (hasOffsets.entries entry (by omega)), ok_bind, added, ok_bind]
        exact ih (IndexTree.at?_push found inRange) overRest (by omega) of'

theorem Knows.flatten_eq_error (knows : flattener.Knows basis depth tree)
    (countable : basis.Countable depth tree) (overflow : tree.Overflows index) :
    flattener.flatten index = .error .arithmetic := by
  obtain ⟨rfl, rfl, known⟩ := knows
  have root : tree.at? [] = some tree := rfl
  have stops := flattenFrom_eq_error countable root overflow
    (by rw [Nat.zero_add]; exact countable.room) known
  rw [Flattener.flatten, stops]
  rfl

theorem Reachable.knows (reachable : flattener.Reachable basis)
    (countable : basis.Countable basis.maxIndexLength tree) :
    flattener.Knows basis basis.maxIndexLength tree := by
  induction reachable with
  | create => exact knows_create
  | @flatten flattener next index flat _ run ih =>
      by_cases overflow : tree.Overflows index
      · rw [ih.flatten_eq_error countable overflow] at run
        contradiction
      · obtain ⟨next', run', knows⟩ := ih.exists_flatten countable overflow
        obtain ⟨-, rfl⟩ := Prod.mk.inj (Except.ok.inj (run.symm.trans run'))
        exact knows

end Flattener

theorem Basis.flattenIndex_eq_map :
    basis.flattenIndex index = ((Flattener.create basis).flatten index).map Prod.fst := by
  unfold Basis.flattenIndex
  cases (Flattener.create basis).flatten index <;> rfl

namespace Basis.HasIndices

theorem flatten_eq_rank? (numbered : basis.HasIndices numbering dimension)
    (room : dimension < Index.limit - 1) (reachable : flattener.Reachable basis)
    (representable : ∀ entry ∈ index, entry < Index.limit)
    (fine : ¬ MultiIndex.ReachesLimit basis.size index) :
    (flattener.flatten index).map Prod.fst = .ok (numbering.tree.rank? index) := by
  have countable := numbered.countable room
  rw [← IndexTree.overflows_iff countable.follows representable] at fine
  obtain ⟨next, run, -⟩ := (reachable.knows countable).exists_flatten countable fine
  rw [run]
  rfl

theorem flatten_eq_arithmetic (numbered : basis.HasIndices numbering dimension)
    (room : dimension < Index.limit - 1) (reachable : flattener.Reachable basis)
    (representable : ∀ entry ∈ index, entry < Index.limit)
    (overflow : MultiIndex.ReachesLimit basis.size index) :
    flattener.flatten index = .error .arithmetic := by
  have countable := numbered.countable room
  rw [← IndexTree.overflows_iff countable.follows representable] at overflow
  exact (reachable.knows countable).flatten_eq_error countable overflow

/-- An answer does not depend on what the flattener knows, and neither does a fault. -/
theorem map_flatten_eq (numbered : basis.HasIndices numbering dimension)
    (room : dimension < Index.limit - 1) (reachable : flattener.Reachable basis)
    (representable : ∀ entry ∈ index, entry < Index.limit) :
    (flattener.flatten index).map Prod.fst = basis.flattenIndex index := by
  rw [Basis.flattenIndex_eq_map]
  by_cases overflow : MultiIndex.ReachesLimit basis.size index
  · rw [numbered.flatten_eq_arithmetic room reachable representable overflow,
      numbered.flatten_eq_arithmetic room .create representable overflow]
  · rw [numbered.flatten_eq_rank? room reachable representable overflow,
      numbered.flatten_eq_rank? room .create representable overflow]

/-- An index that does not get a flat number is none of a degree of freedom. -/
theorem not_produces (numbered : basis.HasIndices numbering dimension)
    (room : dimension < Index.limit - 1) (answer : Except Fault (Option Nat))
    (run : basis.flattenIndex index = answer) (noNumber : ∀ number, answer ≠ .ok (some number)) :
    ¬ basis.Produces index :=
  fun produced => noNumber _ (run.symm.trans (numbered.flattenIndex_eq_ok room produced))

end Basis.HasIndices

section Meshes

variable {R : Type} {mesh : TriangleMesh R} {view : MeshView R Triangle} {tag : Nat}

/-- Cells may repeat vertices if the local sizes are indices. -/
theorem Built.exists_hasIndices_of_mesh (viewed : MeshView.ofMesh mesh = .ok view)
    (nonempty : mesh.cells ≠ []) (built : Built (view.toGridView tag) 1 basis)
    (counted : basis.dimension = .ok dimension) (room : dimension < Index.limit)
    (sized : mesh.Distinct ∨ ∃ most < Index.limit, basis.maxNodeSize = .ok most) :
    ∃ numbering, basis.HasIndices numbering dimension := by
  rcases sized with distinct | ⟨most, roomMost, sized⟩
  · obtain ⟨numbering, -, numbered⟩ :=
      built.exists_hasNumbering_of_mesh viewed distinct nonempty counted room
    exact ⟨numbering, numbered.toHasIndices⟩
  · obtain ⟨numbering, numbered⟩ := built.exists_numbering
    have elements : 0 < (view.toGridView tag).size 0 :=
      Nat.lt_of_lt_of_eq (List.length_pos_iff.mpr nonempty) (MeshView.size_zero viewed).symm
    refine ⟨numbering, numbered.hasIndices (MeshView.covered viewed) elements counted room ?_⟩
    rwa [numbered.places_eq sized roomMost]

/-- Of a list that is not the index of a degree of freedom a flattener says so, whatever it
knows, unless an entry that cannot be increased is reached: there it stops. -/
theorem flatten_rejects_others (viewed : MeshView.ofMesh mesh = .ok view)
    (nonempty : mesh.cells ≠ []) (built : Built (view.toGridView tag) 1 basis)
    (counted : basis.dimension = .ok dimension) (room : dimension < Index.limit - 1)
    (sized : mesh.Distinct ∨ ∃ most < Index.limit, basis.maxNodeSize = .ok most)
    (reachable : flattener.Reachable basis)
    (representable : ∀ entry ∈ index, entry < Index.limit) (other : ¬ basis.Produces index) :
    (flattener.flatten index).map Prod.fst = basis.flattenIndex index ∧
    (basis.flattenIndex index = .ok none ↔ ¬ MultiIndex.ReachesLimit basis.size index) ∧
    (basis.flattenIndex index = .error .arithmetic ↔
      MultiIndex.ReachesLimit basis.size index) := by
  obtain ⟨numbering, numbered⟩ := built.exists_hasIndices_of_mesh viewed nonempty counted
    (by omega) sized
  have unranked : numbering.tree.rank? index = none := by
    cases ranked : numbering.tree.rank? index with
    | none => rfl
    | some rank =>
        have whole := IndexTree.exists_rank?_iff_whole.mp ⟨rank, ranked⟩
        exact absurd (numbered.produces_iff.mpr whole) other
  refine ⟨numbered.map_flatten_eq room reachable representable, ?_⟩
  have fresh : (Flattener.create basis).Reachable basis := .create
  rw [Basis.flattenIndex_eq_map]
  by_cases overflow : MultiIndex.ReachesLimit basis.size index
  · rw [numbered.flatten_eq_arithmetic room fresh representable overflow]
    exact ⟨iff_of_false nofun (fun fine => fine overflow), iff_of_true rfl overflow⟩
  · rw [numbered.flatten_eq_rank? room fresh representable overflow, unranked]
    exact ⟨iff_of_true rfl overflow, iff_of_false nofun overflow⟩

/-- After a list that is too short, one with an entry out of range, and one with an entry
that cannot be increased. -/
theorem flatten_rejects_others_square : ∃ next,
    (Flattener.create Sample.pair.toBasis).flatten [1] = .ok (none, next) ∧
      ¬ Sample.pair.toBasis.Produces [13] ∧ (next.flatten [13]).map Prod.fst = .ok none ∧
      ¬ Sample.pair.toBasis.Produces [1, Index.limit - 1] ∧
      (next.flatten [1, Index.limit - 1]).map Prod.fst = .error .arithmetic := by
  obtain ⟨numbering, -, numbered⟩ := Sample.pair_built.exists_hasNumbering_of_mesh
    Sample.square_viewed Sample.square_distinct (by decide) Sample.pair_dimension (by decide)
  obtain ⟨next, run⟩ : ∃ next,
      (Flattener.create Sample.pair.toBasis).flatten [1] = .ok (none, next) := ⟨_, rfl⟩
  have rejects := fun {index : MultiIndex} => @flatten_rejects_others _ index 17 next _ _ _ 0
    Sample.square_viewed (by decide) Sample.pair_built Sample.pair_dimension (by decide)
    (.inl Sample.square_distinct) (.flatten .create run)
  have outside : ¬ Sample.pair.toBasis.Produces [13] :=
    numbered.not_produces (by decide) (.ok none) rfl nofun
  have beyond : ¬ Sample.pair.toBasis.Produces [1, Index.limit - 1] :=
    numbered.not_produces (by decide) (.error .arithmetic) rfl nofun
  have fine : ¬ MultiIndex.ReachesLimit Sample.pair.toBasis.size [13] :=
    MultiIndex.not_reachesLimit_of_small (by decide)
  have reaches : MultiIndex.ReachesLimit Sample.pair.toBasis.size [1, Index.limit - 1] :=
    ⟨[1], [], rfl, MultiIndex.withinSizes_cons_iff.mpr ⟨⟨13, rfl, by decide⟩, MultiIndex.withinSizes_nil⟩⟩
  obtain ⟨same, none, -⟩ := rejects (by decide) outside
  obtain ⟨same', -, stops⟩ := rejects (by decide) beyond
  exact ⟨next, run, outside, same.trans (none.mpr fine), beyond, same'.trans (stops.mpr reaches)⟩

/-- The largest entry stops the flattener of the smallest of all bases. -/
theorem corner_flatten : Built (Sample.triangleView.toGridView 0) 1 Sample.corner.toBasis ∧
    Sample.corner.toBasis.dimension = .ok 3 ∧
    ¬ Sample.corner.toBasis.Produces [Index.limit - 1] ∧
    Sample.corner.toBasis.flattenIndex [Index.limit - 1] = .error .arithmetic := by
  have built : Built (Sample.triangleView.toGridView 0) 1 Sample.corner.toBasis :=
    .lagrange Sample.corner_created
  obtain ⟨numbering, -, numbered⟩ := built.exists_hasNumbering_of_mesh Sample.triangle_viewed
    (by decide) (by decide) (rfl : Sample.corner.toBasis.dimension = .ok 3) (by decide)
  have stops : Sample.corner.toBasis.flattenIndex [Index.limit - 1] = .error .arithmetic := rfl
  exact ⟨built, rfl, numbered.not_produces (by decide) _ stops nofun, stops⟩

end Meshes

end DofNumbering
