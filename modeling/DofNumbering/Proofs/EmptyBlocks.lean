import DofNumbering.Proofs.Basis.EmptyPower
import DofNumbering.Proofs.Coverage

namespace DofNumbering

/-! Composites with and without a power that has no copies.

The stems of the power that nothing follows take numbers although none of them is that
of a degree of freedom.  So the numbers of the members behind it are too large, and the
check refuses them unless there is no member behind.
-/

namespace Coverage

variable {basis : Basis} {numbering numbering' : Numbering} {dimension start count number : Nat}

theorem nodup_of_shifts (numbered : basis.HasNumbering numbering dimension)
    (shifts : numbering.Shifts numbering' (basis.grid.size 0) start count) :
    ∀ indices ∈ indicesOn numbering' (basis.grid.size 0), indices.Nodup := by
  intro indices inElements
  obtain ⟨element, inGrid, rfl⟩ := mem_of_mem_indicesOn inElements
  refine List.nodup_range.map_on (fun j inRange k inRange' equal => ?_)
  rw [List.mem_range, shifts.size] at inRange inRange'
  obtain ⟨rank, ranked, moved⟩ := shifts.ranks element inGrid j inRange
  obtain ⟨rank', ranked', moved'⟩ := shifts.ranks element inGrid k inRange'
  rw [equal, moved'] at moved
  obtain rfl := shifted_injective (Option.some.inj moved)
  exact numbered.lawful.injective element inGrid j inRange k inRange'
    (IndexTree.rank?_injective ranked ranked')

/-- Every moved number is that of an index on some element. -/
theorem exists_index_of_shifts (numbered : basis.HasNumbering numbering dimension)
    (shifts : numbering.Shifts numbering' (basis.grid.size 0) start count)
    (below : number < dimension) :
    ∃ indices ∈ indicesOn numbering' (basis.grid.size 0), ∃ index ∈ indices,
      numbering'.tree.rank? index = some (shifted start count number) := by
  obtain ⟨index, ranked⟩ := IndexTree.exists_rank?_eq_some (numbered.total_eq.symm ▸ below)
  obtain ⟨element, inGrid, j, inRange, rfl⟩ :=
    numbered.lawful.onto index (IndexTree.exists_rank?_iff_whole.mp ⟨number, ranked⟩)
  obtain ⟨rank, ranked', moved⟩ := shifts.ranks element inGrid j inRange
  obtain rfl := Option.some.inj (ranked.symm.trans ranked')
  exact ⟨_, List.mem_map_of_mem (List.mem_range.mpr inGrid), _,
    List.mem_map_of_mem (List.mem_range.mpr (shifts.size ▸ inRange)), moved⟩

theorem violations_of_shifts (numbered : basis.HasNumbering numbering dimension)
    (shifts : numbering.Shifts numbering' (basis.grid.size 0) start count)
    (stays : ∀ number < dimension, shifted start count number = number) :
    violations numbering'.tree.rank? dimension numbering.size
      (indicesOn numbering' (basis.grid.size 0)) = [] := by
  refine violations_eq_nil_iff.mpr ⟨fun indices inElements => ?_, fun indices inElements index
    inIndices => ?_, nodup_of_shifts numbered shifts, fun number below => ?_⟩
  · obtain ⟨element, -, rfl⟩ := mem_of_mem_indicesOn inElements
    simp [shifts.size]
  · obtain ⟨element, inGrid, rfl⟩ := mem_of_mem_indicesOn inElements
    obtain ⟨j, inRange, rfl⟩ := List.mem_map.mp inIndices
    obtain ⟨rank, ranked, moved⟩ :=
      shifts.ranks element inGrid j (shifts.size ▸ List.mem_range.mp inRange)
    have below : rank < dimension := numbered.total_eq ▸ IndexTree.rank?_lt_total ranked
    exact ⟨rank, below, by rw [moved, stays rank below]⟩
  · obtain ⟨indices, inElements, index, inIndices, moved⟩ :=
      exists_index_of_shifts numbered shifts below
    exact ⟨indices, inElements, index, inIndices, by rw [moved, stays number below]⟩

theorem exists_verdict_of_shifts (numbered : basis.HasNumbering numbering dimension)
    (shifts : numbering.Shifts numbering' (basis.grid.size 0) start count)
    (below : number < dimension) (moves : dimension ≤ shifted start count number) :
    ∃ element index, verdict numbering'.tree.rank? dimension numbering.size
      (indicesOn numbering' (basis.grid.size 0)) = refuse (.outOfBounds element index) := by
  refine exists_verdict_eq_outOfBounds (fun indices inElements => ?_)
    (nodup_of_shifts numbered shifts) (fun all => ?_)
  · obtain ⟨element, -, rfl⟩ := mem_of_mem_indicesOn inElements
    simp [shifts.size]
  · obtain ⟨indices, inElements, index, inIndices, moved⟩ :=
      exists_index_of_shifts numbered shifts below
    obtain ⟨other, inBounds, ranked⟩ := all indices inElements index inIndices
    obtain rfl := Option.some.inj (moved.symm.trans ranked)
    omega

end Coverage

/-- A composite on a grid with elements and the same one with a power without copies between its
members; the numbers of all bases are not too large. -/
structure Insertion (grid : GridView) where
  blocked : Bool
  front : List Basis
  back : List Basis
  merging : Merging
  /-- The child of the power. -/
  inner : Basis
  members : Members
  extended : Members
  numbering : Basis → Numbering
  innerNumbering : Numbering
  listed : members.toList = front ++ back
  inserted : extended.toList = front ++ PowerBasis.toBasis ⟨merging, 0, inner⟩ :: back
  numbered : ∀ member ∈ front ++ back, Numbered grid 1 member (numbering member)
  innerNumbered : Numbered grid 1 inner innerNumbering
  conforming : grid.Conforming
  nonempty : 0 < grid.size 0
  room : ((front.map numbering ++ back.map numbering).map Numbering.dofs).sum +
    innerNumbering.dofs + 1 < Index.limit

namespace Insertion

variable {grid : GridView} (insertion : Insertion grid) {member : Basis} {element : Nat}

def empty : Basis := PowerBasis.toBasis ⟨insertion.merging, 0, insertion.inner⟩

def base : Basis := CompositeBasis.toBasis ⟨insertion.blocked, insertion.members⟩

def extension : Basis := CompositeBasis.toBasis ⟨insertion.blocked, insertion.extended⟩

/-- The numberings of the members. -/
def parts : List Numbering :=
  insertion.front.map insertion.numbering ++ insertion.back.map insertion.numbering

def emptyPart : Numbering := insertion.innerNumbering.power insertion.merging 0

/-- The numberings of the members and of the power. -/
def extendedParts : List Numbering :=
  insertion.front.map insertion.numbering ++
    insertion.emptyPart :: insertion.back.map insertion.numbering

/-- The numbering of the composite as it was. -/
def before : Numbering := .joined insertion.blocked insertion.parts

/-- The numbering of the composite with the power. -/
def after : Numbering := .joined insertion.blocked insertion.extendedParts

/-- The number of degrees of freedom of the members before the power. -/
def start : Nat := ((insertion.front.map insertion.numbering).map Numbering.dofs).sum

def vacancy : Nat := insertion.merging.vacancy insertion.blocked insertion.innerNumbering.dofs

theorem dofs_lt_limit :
    insertion.before.dofs + insertion.innerNumbering.dofs + 1 < Index.limit := insertion.room

theorem mem_parts (inMembers : member ∈ insertion.front ++ insertion.back) :
    insertion.numbering member ∈ insertion.parts := by
  rw [parts, ← List.map_append]
  exact List.mem_map_of_mem inMembers

theorem member_dofs_lt (inMembers : member ∈ insertion.front ++ insertion.back) :
    (insertion.numbering member).dofs < Index.limit := by
  have le := @Numbering.dofs_le_joined insertion.blocked _ _ (insertion.mem_parts inMembers)
  have room := insertion.dofs_lt_limit
  rw [before] at room
  omega

theorem inner_dofs_lt : insertion.innerNumbering.dofs < Index.limit := by
  have room := insertion.dofs_lt_limit
  omega

theorem inner_lawful : insertion.innerNumbering.Lawful (grid.size 0) :=
  insertion.innerNumbered.lawful insertion.conforming insertion.nonempty

theorem parts_lawful : ∀ part ∈ insertion.parts, part.Lawful (grid.size 0) := by
  rw [parts, ← List.map_append]
  exact List.forall_mem_map.mpr (fun member inMembers => (insertion.numbered member inMembers).lawful
    insertion.conforming insertion.nonempty)

theorem parts_covers : ∀ part ∈ insertion.parts, part.Covers (grid.size 0) :=
  fun part inParts => (insertion.parts_lawful part inParts).toCovers

theorem parts_ne_nil : insertion.parts ≠ [] := by
  rw [parts, ← List.map_append, ← insertion.listed]
  simp [Members.toList]

theorem shifts :
    insertion.before.Shifts insertion.after (grid.size 0) insertion.start insertion.vacancy := by
  have covers := insertion.inner_lawful.toCovers
  have none : insertion.emptyPart.size = 0 := (Numbering.size_power _).trans (Nat.zero_mul _)
  rw [vacancy, ← Numbering.weight_power_zero covers]
  exact Numbering.shifts_joined_insert insertion.parts_covers none (Numbering.root_power_zero covers)

/-- The power takes numbers, but no more than there are degrees of freedom of its child. -/
theorem total_after_le :
    insertion.after.tree.total ≤ insertion.before.dofs + insertion.innerNumbering.dofs := by
  have covers := insertion.inner_lawful.toCovers
  have positive : 0 < insertion.innerNumbering.dofs := covers.total ▸ IndexTree.total_pos _
  have total : insertion.after.tree.total = insertion.before.dofs + insertion.vacancy := by
    rw [vacancy, ← Numbering.weight_power_zero covers]
    exact Numbering.total_joined_insert insertion.parts_ne_nil insertion.parts_covers
  rw [total]
  exact Nat.add_le_add_left (Merging.vacancy_le positive) _

/-- What is at most the number of degrees of freedom of each member is an index for all. -/
theorem sum_lt_limit {value : Numbering → Nat} (each : ∀ part ∈ insertion.parts, value part ≤ part.dofs)
    (own : value insertion.emptyPart ≤ insertion.innerNumbering.dofs) :
    (insertion.extendedParts.map value).sum < Index.limit := by
  have le : (insertion.parts.map value).sum ≤ insertion.before.dofs := List.sum_le_sum each
  have room := insertion.dofs_lt_limit
  rw [extendedParts, (List.perm_middle.map value).sum_eq, List.map_cons, List.sum_cons, ← parts]
  omega

theorem places_after_lt : insertion.after.places < Index.limit := by
  refine insertion.sum_lt_limit (fun part inParts => ?_) ?_
  · exact (insertion.parts_lawful part inParts).places_le_dofs insertion.nonempty
  · exact (Nat.one_mul _).trans_le (insertion.inner_lawful.places_le_dofs insertion.nonempty)

section Base

theorem base_numbered : Numbered grid 1 insertion.base insertion.before := by
  have numbered : ∀ member ∈ insertion.members.toList,
      Numbered grid 1 member (insertion.numbering member) := by
    rw [insertion.listed]
    exact insertion.numbered
  rw [before, parts, ← List.map_append, ← insertion.listed]
  exact .composite insertion.numbering
    (CompositeBasis.create_of_grid (fun member inMembers => (numbered member inMembers).grid_eq))
    numbered

theorem base_grid : insertion.base.grid = grid := insertion.base_numbered.grid_eq

theorem base_size : insertion.base.grid.size 0 = grid.size 0 :=
  congrArg (GridView.size · 0) insertion.base_grid

theorem before_room : insertion.before.dofs < Index.limit - 1 := by
  have room := insertion.dofs_lt_limit
  omega

theorem before_dofs_lt : insertion.before.dofs < Index.limit :=
  Nat.lt_of_lt_of_le insertion.before_room (Nat.sub_le _ 1)

theorem base_dimension : insertion.base.dimension = .ok insertion.before.dofs :=
  insertion.base_numbered.measure_eq_ok Basis.additive_dimension insertion.before_dofs_lt

theorem base_hasNumbering : insertion.base.HasNumbering insertion.before insertion.before.dofs :=
  insertion.base_numbered.hasNumbering insertion.conforming insertion.nonempty
    insertion.base_dimension insertion.before_dofs_lt

theorem base_maxNodeSize : insertion.base.maxNodeSize = .ok insertion.before.size := by
  rw [← insertion.base_hasNumbering.lawful.places]
  exact insertion.base_numbered.measure_eq_ok Basis.additive_maxNodeSize
    insertion.base_hasNumbering.places

theorem sumOver_front : Index.sumOver Basis.dimension insertion.front = .ok insertion.start := by
  have room := insertion.before_dofs_lt
  simp only [before, parts, Numbering.joined, List.map_append, List.sum_append] at room
  rw [start]
  rw [List.map_map] at room ⊢
  refine Index.sumOver_eq_ok (fun member inFront => ?_) (by omega)
  have inMembers := List.mem_append_left insertion.back inFront
  exact (insertion.numbered member inMembers).measure_eq_ok Basis.additive_dimension
    (insertion.member_dofs_lt inMembers)

theorem start_le : insertion.start ≤ insertion.before.dofs := by
  simp [start, before, parts, Numbering.joined]

end Base

section Extension

/-- The power has no degrees of freedom, but each member has some. -/
theorem empty_notMem : insertion.empty ∉ insertion.front ++ insertion.back := by
  intro inMembers
  have own := (insertion.numbered _ inMembers).measure_eq_ok Basis.additive_dimension
    (insertion.member_dofs_lt inMembers)
  have counted := insertion.innerNumbered.measure_eq_ok Basis.additive_dimension
    insertion.inner_dofs_lt
  have none := @PowerBasis.measure_power_zero insertion.merging _ _ _ Basis.additive_dimension _ counted
  have positive := IndexTree.total_pos (insertion.numbering insertion.empty).tree
  rw [(insertion.parts_covers _ (insertion.mem_parts inMembers)).total] at positive
  exact absurd (Except.ok.inj (own.symm.trans none)) (Nat.ne_of_gt positive)

/-- The numberings of all members, one of which is the power. -/
theorem exists_numbering_extended : ∃ numbering : Basis → Numbering,
    (∀ member ∈ insertion.extended.toList, Numbered grid 0 member (numbering member) ∧
      member.HasTree (numbering member).tree) ∧
    insertion.extended.toList.map numbering = insertion.extendedParts := by
  have covered := insertion.conforming.covered
  have emptyNumbered : Numbered grid 0 insertion.empty insertion.emptyPart :=
    .power _ 0 (Nat.le_refl 0) (insertion.innerNumbered.mono (Nat.zero_le 1))
  obtain ⟨numbering, numbered, own, others⟩ :=
    exists_numbering_insert insertion.numbered emptyNumbered insertion.empty_notMem
  have inserted : insertion.extended.toList =
      insertion.front ++ insertion.empty :: insertion.back := insertion.inserted
  refine ⟨numbering, fun member inExtended => ?_, ?_⟩
  · rw [inserted] at inExtended
    refine ⟨numbered member inExtended, ?_⟩
    rcases List.mem_cons.mp (List.perm_middle.mem_iff.mp inExtended) with rfl | inMembers
    · rw [own]
      exact PowerBasis.hasTree_power_zero
        (insertion.innerNumbered.describes covered insertion.nonempty insertion.inner_dofs_lt)
        insertion.inner_lawful.toCovers
    · rw [others member inMembers]
      exact ((insertion.numbered member inMembers).describes covered insertion.nonempty
        (insertion.member_dofs_lt inMembers)).hasTree
  · rw [inserted, List.map_append, List.map_cons, own, extendedParts]
    congr 1
    · exact List.map_congr_left (fun member inFront => others member (List.mem_append_left _ inFront))
    · refine congrArg _ (List.map_congr_left (fun member inBack => ?_))
      exact others member (List.mem_append_right _ inBack)

theorem extension_created : CompositeBasis.create insertion.blocked insertion.extended =
    .ok ⟨insertion.blocked, insertion.extended⟩ := by
  obtain ⟨numbering, each, -⟩ := insertion.exists_numbering_extended
  exact CompositeBasis.create_of_grid (fun member inExtended => (each member inExtended).1.grid_eq)

theorem extension_numbered : Numbered grid 0 insertion.extension insertion.after := by
  obtain ⟨numbering, each, parts⟩ := insertion.exists_numbering_extended
  rw [after, ← parts]
  exact .composite numbering insertion.extension_created
    (fun member inExtended => (each member inExtended).1)

theorem extension_grid : insertion.extension.grid = grid := insertion.extension_numbered.grid_eq

theorem extension_size : insertion.extension.grid.size 0 = grid.size 0 :=
  congrArg (GridView.size · 0) insertion.extension_grid

theorem extension_realizes (inGrid : element < grid.size 0) :
    insertion.extension.Realizes insertion.after element :=
  insertion.extension_numbered.realizes (insertion.conforming.covered.triangle element inGrid)
    (insertion.sum_lt_limit (fun _ _ => Nat.le_refl _) (Nat.le_of_eq Numbering.dofs_power_zero))
    insertion.places_after_lt

theorem extension_hasTree : insertion.extension.HasTree insertion.after.tree := by
  have counts := @sum_lt_limit _ insertion (fun part => part.tree.count)
    (fun part inParts =>
      (IndexTree.count_le_total _).trans_eq (insertion.parts_covers part inParts).total)
    (Numbering.count_power_zero_le insertion.inner_lawful.toCovers)
  obtain ⟨numbering, each, parts⟩ := insertion.exists_numbering_extended
  rw [after, ← parts]
  rw [← parts] at counts
  simp only [Numbering.joined, List.map_map] at counts ⊢
  refine @CompositeBasis.hasTree _ _ (Numbering.tree ∘ numbering)
    (fun member inExtended => (each member inExtended).2) ?_
  rwa [List.map_map]

theorem extension_countable :
    insertion.extension.Countable insertion.extension.maxIndexLength insertion.after.tree := by
  have le := insertion.total_after_le
  have room := insertion.dofs_lt_limit
  exact insertion.extension_hasTree.countable (by omega)

theorem extension_dimension : insertion.extension.dimension = .ok insertion.before.dofs :=
  CompositeBasis.measure_insert Basis.additive_dimension insertion.listed insertion.inserted
    insertion.base_dimension
    (insertion.innerNumbered.measure_eq_ok Basis.additive_dimension insertion.inner_dofs_lt)

theorem extension_maxNodeSize : insertion.extension.maxNodeSize = .ok insertion.before.size := by
  have places := insertion.inner_lawful.places_le_dofs insertion.nonempty
  exact CompositeBasis.measure_insert Basis.additive_maxNodeSize insertion.listed
    insertion.inserted insertion.base_maxNodeSize
    (insertion.innerNumbered.measure_eq_ok Basis.additive_maxNodeSize
      (Nat.lt_of_le_of_lt places insertion.inner_dofs_lt))

end Extension

/-- The members before the power keep their numbers, and those behind it move. -/
theorem agreeOn (inGrid : element < grid.size 0) :
    insertion.base.AgreeOn insertion.extension element (fun index index' => ∃ number,
      insertion.base.flattenIndex index = .ok (some number) ∧
      insertion.extension.flattenIndex index' =
        .ok (some (shifted insertion.start insertion.vacancy number))) := by
  have base := insertion.base_hasNumbering
  have inBase : element < insertion.base.grid.size 0 := insertion.base_size.symm ▸ inGrid
  refine (base.realizes element inBase).agreeOn (insertion.extension_realizes inGrid) base.places
    insertion.places_after_lt (insertion.base_grid.trans insertion.extension_grid.symm) inBase
    insertion.shifts.size.symm (fun j below => ?_)
  obtain ⟨number, ranked, moved⟩ := insertion.shifts.ranks element inGrid j below
  refine ⟨number, ?_, ?_⟩
  · exact (base.countable insertion.before_room).flattenIndex_eq_ok ranked
  · exact insertion.extension_countable.flattenIndex_eq_ok moved

/-- The check of the composite with the power finds what is wrong with the moved numbers. -/
theorem finds_check :
    Coverage.Finds (grid.size 0 * insertion.before.size < Index.limit)
      (Coverage.violations insertion.after.tree.rank? insertion.before.dofs insertion.before.size
        (Coverage.indicesOn insertion.after (grid.size 0)))
      (fun coverage => coverage = ⟨insertion.before.dofs, grid.size 0 * insertion.before.size,
        insertion.before.size⟩ ∧ grid.size 0 * insertion.before.size < Index.limit)
      (Coverage.check insertion.extension) := by
  have whole : ∀ element < grid.size 0, ∀ j < insertion.after.size,
      insertion.after.tree.Whole (insertion.after.index element j) := by
    intro element inGrid j below
    rw [insertion.shifts.size] at below
    obtain ⟨number, -, moved⟩ := insertion.shifts.ranks element inGrid j below
    exact IndexTree.exists_rank?_iff_whole.mp ⟨_, moved⟩
  have realizes := fun element => @insertion.extension_realizes _ element
  have nonempty := insertion.nonempty
  rw [← insertion.extension_size] at whole realizes nonempty
  have found := Coverage.finds_check_indicesOn insertion.extension_countable
    insertion.extension_dimension insertion.extension_maxNodeSize realizes
    insertion.places_after_lt whole nonempty
  rwa [insertion.extension_size, insertion.shifts.size] at found

/-- The check accepts the indices if no number moves, and else it finds one out of bounds. -/
theorem check_extension {report : Coverage} (checked : Coverage.check insertion.base = .ok report) :
    (insertion.vacancy = 0 ∨ insertion.start = insertion.before.dofs →
      Coverage.check insertion.extension = .ok report) ∧
    (insertion.vacancy ≠ 0 → insertion.start ≠ insertion.before.dofs →
      ∃ element index, Coverage.check insertion.extension = refuse (.outOfBounds element index)) := by
  have base := insertion.base_hasNumbering
  have nonempty : 0 < insertion.base.grid.size 0 := insertion.base_size ▸ insertion.nonempty
  obtain ⟨rfl, room⟩ := (Coverage.check_eq_ok_iff base insertion.before_room
    insertion.base_dimension insertion.base_maxNodeSize nonempty).mp checked
  have shifts := insertion.shifts
  have found := insertion.finds_check
  rw [← insertion.base_size] at shifts found
  refine ⟨fun stays => ?_, fun moves notLast => ?_⟩
  · rw [Coverage.violations_of_shifts base shifts (fun number below => ?_)] at found
    · rw [insertion.base_size] at found room ⊢
      obtain ⟨_, run, rfl, -⟩ := found.exists_eq_ok room
      exact run
    · unfold shifted
      split <;> omega
  · have le := insertion.start_le
    -- the last number is that of an index behind the power
    have last : insertion.before.dofs ≤
        shifted insertion.start insertion.vacancy (insertion.before.dofs - 1) := by
      unfold shifted
      split <;> omega
    obtain ⟨element, index, refused⟩ := Coverage.exists_verdict_of_shifts base shifts (by omega) last
    exact ⟨element, index, found.eq_refuse room refused⟩

end Insertion

section Meshes

variable {R : Type} {mesh : TriangleMesh R} {view : MeshView R Triangle} {tag : Nat}
  {members extended : Members} {front back : List Basis} {inner : Basis} {merging : Merging}
  {blocked : Bool} {dimension innerDimension : Nat}

/-- Between the members of a composite, a power without copies leaves the dimension as it is,
but it moves the numbers of all members behind it.  So the check accepts the indices as before
only if nothing is moved or no member is behind, and else it finds one out of bounds. -/
theorem empty_block_moves_numbers (viewed : MeshView.ofMesh mesh = .ok view)
    (distinct : mesh.Distinct) (nonempty : mesh.cells ≠ [])
    (listed : members.toList = front ++ back)
    (inserted : extended.toList = front ++ PowerBasis.toBasis ⟨merging, 0, inner⟩ :: back)
    (built : ∀ member ∈ members.toList, Built (view.toGridView tag) 1 member)
    (innerBuilt : Built (view.toGridView tag) 1 inner)
    (counted : (CompositeBasis.toBasis ⟨blocked, members⟩).dimension = .ok dimension)
    (innerCounted : inner.dimension = .ok innerDimension)
    (room : dimension + innerDimension + 1 < Index.limit) :
    CompositeBasis.create blocked extended = .ok ⟨blocked, extended⟩ ∧
    (CompositeBasis.toBasis ⟨blocked, extended⟩).dimension = .ok dimension ∧
    ∃ start, Index.sumOver Basis.dimension front = .ok start ∧
      (∀ element < mesh.cells.length,
        (CompositeBasis.toBasis ⟨blocked, members⟩).AgreeOn
          (CompositeBasis.toBasis ⟨blocked, extended⟩) element (fun index index' => ∃ number,
            (CompositeBasis.toBasis ⟨blocked, members⟩).flattenIndex index = .ok (some number) ∧
            (CompositeBasis.toBasis ⟨blocked, extended⟩).flattenIndex index' =
              .ok (some (shifted start (merging.vacancy blocked innerDimension) number)))) ∧
      ∀ report, Coverage.check (CompositeBasis.toBasis ⟨blocked, members⟩) = .ok report →
        (merging.vacancy blocked innerDimension = 0 ∨ start = dimension →
          Coverage.check (CompositeBasis.toBasis ⟨blocked, extended⟩) = .ok report) ∧
        (merging.vacancy blocked innerDimension ≠ 0 → start ≠ dimension → ∃ element index,
          Coverage.check (CompositeBasis.toBasis ⟨blocked, extended⟩) =
            refuse (.outOfBounds element index)) := by
  rw [listed] at built
  choose! numbering numbered using fun member inMembers => (built member inMembers).exists_numbering
  obtain ⟨innerNumbering, innerNumbered⟩ := innerBuilt.exists_numbering
  have elements : (view.toGridView tag).size 0 = mesh.cells.length := MeshView.size_zero viewed
  have innerDofs := innerNumbered.dofs_eq innerCounted (by omega)
  have dofs : ((front.map numbering ++ back.map numbering).map Numbering.dofs).sum = dimension := by
    change (Numbering.joined blocked (front.map numbering ++ back.map numbering)).dofs = dimension
    rw [← List.map_append, ← listed]
    rw [← listed] at numbered
    have created := @CompositeBasis.create_of_grid members blocked _
      (fun member inMembers => (numbered member inMembers).grid_eq)
    exact (Numbered.composite numbering created numbered).dofs_eq counted (by omega)
  let insertion : Insertion (view.toGridView tag) := {
    blocked, front, back, merging, inner, members, extended, numbering, innerNumbering
    listed, inserted, numbered, innerNumbered
    conforming := MeshView.conforming viewed distinct
    nonempty := elements.symm ▸ List.length_pos_iff.mpr nonempty
    room := by rwa [dofs, innerDofs] }
  have vacancy : insertion.vacancy = merging.vacancy blocked innerDimension :=
    congrArg (merging.vacancy blocked) innerDofs
  have dimensions : insertion.before.dofs = dimension := dofs
  rw [← vacancy, ← dimensions]
  exact ⟨insertion.extension_created, insertion.extension_dimension, insertion.start,
    insertion.sumOver_front, fun element inMesh => insertion.agreeOn (elements.symm ▸ inMesh),
    fun report checked => insertion.check_extension checked⟩

namespace Sample

def alone : Members := ⟨corner.toBasis, []⟩

/-- A linear basis behind a power without copies. -/
def behindGap (merging : Merging) : Members :=
  ⟨PowerBasis.toBasis ⟨merging, 0, corner.toBasis⟩, [corner.toBasis]⟩

/-- A grid without elements. -/
def emptyView : MeshView Nat Triangle where
  mesh := ⟨[], []⟩
  cells := #[]
  cellFaces := #[]
  numFaces := 0
  vertexLabels := #[]
  numVertices := 0

def nowhere : LagrangeBasis := ⟨emptyView.toGridView 0, .linear, 0⟩

end Sample

/-- One blocked member on one triangle, and a power without copies before it. -/
theorem empty_block_moves_numbers_corner : Sample.triangle.Distinct ∧
    ∃ element index, Coverage.check (CompositeBasis.toBasis
      ⟨true, Sample.behindGap .flatInterleaved⟩) = refuse (.outOfBounds element index) := by
  have distinct : Sample.triangle.Distinct := by decide
  have built : Built (Sample.triangleView.toGridView 0) 1 Sample.corner.toBasis :=
    .lagrange Sample.corner_created
  obtain ⟨-, -, start, started, -, checks⟩ :=
    @empty_block_moves_numbers _ _ _ 0 Sample.alone (Sample.behindGap .flatInterleaved) [] _ _
      .flatInterleaved true 3 3 Sample.triangle_viewed distinct (by decide) rfl rfl
      (fun member inMembers => List.mem_singleton.mp inMembers ▸ built) built rfl rfl (by decide)
  obtain rfl : 0 = start := Except.ok.inj started
  have checked : Coverage.check (CompositeBasis.toBasis ⟨true, Sample.alone⟩) = .ok ⟨3, 3, 3⟩ := rfl
  exact ⟨distinct, (checks _ checked).2 (by decide) (by decide)⟩

/-- Where the power has an entry of its own, or leaves the indices of its child, the numbers of
the member behind it are too large, although the dimension is the same.  A grid without
elements has no degree of freedom, but the index without entries has a number. -/
theorem corner_behind_gap :
    Coverage.check (CompositeBasis.toBasis ⟨true, Sample.alone⟩) = .ok ⟨3, 3, 3⟩ ∧
    (CompositeBasis.toBasis ⟨true, Sample.alone⟩).flattenIndex [0, 0] = .ok (some 0) ∧
    (CompositeBasis.toBasis ⟨true, Sample.behindGap .flatInterleaved⟩).dimension = .ok 3 ∧
    (CompositeBasis.toBasis ⟨true, Sample.behindGap .flatInterleaved⟩).flattenIndex [1, 0] =
      .ok (some 1) ∧
    Coverage.check (CompositeBasis.toBasis ⟨true, Sample.behindGap .flatInterleaved⟩) =
      refuse (.outOfBounds 0 [1, 2]) ∧
    Coverage.check (CompositeBasis.toBasis ⟨false, Sample.behindGap .blockedInterleaved⟩) =
      refuse (.outOfBounds 0 [3]) ∧
    MeshView.ofMesh (⟨[], []⟩ : TriangleMesh Nat) = .ok Sample.emptyView ∧
    LagrangeBasis.create (Sample.emptyView.toGridView 0) 1 = .ok Sample.nowhere ∧
    Sample.nowhere.toBasis.dimension = .ok 0 ∧
    Sample.nowhere.toBasis.flattenIndex [] = .ok (some 0) :=
  ⟨rfl, rfl, rfl, rfl, rfl, rfl, rfl, rfl, rfl, rfl⟩

end Meshes

end DofNumbering
