import DofNumbering.Proofs.Basis.Container
import DofNumbering.Proofs.Production
import DofNumbering.Proofs.Recording
import DofNumbering.Proofs.Samples

namespace DofNumbering

/-! The containers of built bases.

The container of a basis has the nesting of its sizes, and a scalar for every index
that occurs.
-/

namespace Description

mutual

/-- The exponents of the powers in the tree. -/
def exponents : Description → List Nat
  | .lagrange _ => []
  | .power child exponent _ => exponent :: child.exponents
  | .composite children _ => exponentsOfAll children

def exponentsOfAll : List Description → List Nat
  | [] => []
  | child :: rest => child.exponents ++ exponentsOfAll rest

end

theorem mem_exponents_composite {children : List Description} {merging : Merging} {exponent : Nat} :
    exponent ∈ (Description.composite children merging).exponents ↔
      ∃ child ∈ children, exponent ∈ child.exponents := by
  rw [exponents]
  induction children with
  | nil => simp [exponentsOfAll]
  | cons first rest ih => simp [exponentsOfAll, ih]

end Description

section Built

variable {grid : GridView} {least : Nat} {basis : Basis} {numbering : Numbering} {dimension : Nat}
  {index : MultiIndex}

/-- Dimensions are indices if the number of vertices is one. -/
theorem Built.dimension_lt (vertices : grid.size 2 < Index.limit) (built : Built grid least basis)
    (counted : basis.dimension = .ok dimension) : dimension < Index.limit := by
  induction built with
  | @lagrange order basis created =>
      obtain ⟨-, count⟩ := LagrangeBasis.create_eq_ok created
      obtain rfl : basis.dimension = dimension := Except.ok.inj counted
      cases shape : basis.finite with
      | linear =>
          rw [shape] at count
          exact Except.ok.inj count ▸ vertices
      | quadratic =>
          rw [shape] at count
          obtain ⟨room, equal⟩ := Index.add_eq_ok_iff.mp count
          rwa [equal]
  | power merging exponent _ _ _ =>
      obtain ⟨inner, -, product⟩ := bind_eq_ok_iff.mp counted
      obtain ⟨room, rfl⟩ := Index.mul_eq_ok_iff.mp product
      exact room
  | composite created _ _ =>
      cases CompositeBasis.create_eq_ok created
      exact Index.sumFrom_lt_limit (by decide) counted
  | tagged _ _ ih => exact ih counted

theorem Numbered.exists_hasContainer (covered : grid.Covered) (vertices : grid.size 2 < Index.limit)
    (numbered : Numbered grid least basis numbering) (counted : basis.dimension = .ok dimension)
    (exponents : ∀ exponent ∈ basis.description.exponents, exponent < Index.limit) :
    ∃ node, basis.HasContainer numbering (grid.size 0) dimension node := by
  induction numbered generalizing dimension with
  | @lagrange order basis created =>
      have room := Built.dimension_lt vertices (.lagrange created : Built grid least _) counted
      obtain ⟨rfl, count⟩ := LagrangeBasis.create_eq_ok created
      obtain rfl : basis.dimension = dimension := Except.ok.inj counted
      exact ⟨_, (LagrangeBasis.hasFlatContainer covered count).hasContainer room⟩
  | power merging exponent _ _ ih =>
      obtain ⟨inner, countedChild, product⟩ := bind_eq_ok_iff.mp counted
      obtain ⟨room, rfl⟩ := Index.mul_eq_ok_iff.mp product
      obtain ⟨node, has⟩ := ih countedChild
        (fun other inChild => exponents other (List.mem_cons_of_mem exponent inChild))
      exact PowerBasis.exists_hasContainer has merging (exponents exponent List.mem_cons_self) room
  | @composite blocked members basis numbering created _ ih =>
      cases CompositeBasis.create_eq_ok created
      have room := Index.sumFrom_lt_limit (by decide) counted
      have countedMember := fun member (inMembers : member ∈ members.toList) =>
        Index.exists_of_sumFrom_eq_ok counted inMembers
      choose! dimensions countedMember using countedMember
      have hasMember := fun member inMembers => ih member inMembers
        (countedMember member inMembers).1 (fun other inMember => exponents other
          (Description.mem_exponents_composite.mpr ⟨_, List.mem_map_of_mem inMembers, inMember⟩))
      choose! nodes has using hasMember
      have sum := @Index.of_sumFrom_eq_ok _ _ dimensions _ _ _ counted
        (fun member inMembers term found _ =>
          Except.ok.inj ((countedMember member inMembers).1.symm.trans found))
      rw [Nat.zero_add] at sum
      subst sum
      exact CompositeBasis.exists_hasContainer has room blocked
  | tagged _ _ ih =>
      obtain ⟨node, has⟩ := ih counted exponents
      exact ⟨node, ⟨has.contained, has.notValue,
        fun isFlat => { has.flat isFlat with }, has.mirrors, has.measures⟩⟩

/-- With positive exponents everything is counted in the dimension. -/
theorem Numbered.exponents_lt (conforming : grid.Conforming) (nonempty : 0 < grid.size 0)
    (numbered : Numbered grid 1 basis numbering) (room : numbering.dofs < Index.limit) :
    ∀ exponent ∈ basis.description.exponents, exponent < Index.limit := by
  induction numbered with
  | lagrange _ => exact fun _ absent => absurd absent List.not_mem_nil
  | @power child numbering merging exponent enough childNumbered ih =>
      have roomChild := Nat.lt_of_le_of_lt Numbering.dofs_le_power room
      intro other inExponents
      rcases List.mem_cons.mp inExponents with rfl | inChild
      · have lawful := childNumbered.lawful conforming nonempty
        have positive : 0 < numbering.dofs := lawful.total ▸ numbering.tree.total_pos
        have le := Nat.mul_le_mul (Nat.le_max_right 1 other) (Nat.succ_le_of_lt positive)
        rw [Nat.mul_one] at le
        exact Nat.lt_of_le_of_lt le room
      · exact ih roomChild other inChild
  | @composite blocked members basis numbering created _ ih =>
      cases CompositeBasis.create_eq_ok created
      intro exponent inExponents
      obtain ⟨_, inDescriptions, inMember⟩ := Description.mem_exponents_composite.mp inExponents
      obtain ⟨member, inMembers, rfl⟩ := List.mem_map.mp inDescriptions
      have le := @Numbering.dofs_le_joined blocked _ _ (List.mem_map_of_mem (f := numbering) inMembers)
      exact ih member inMembers (Nat.lt_of_le_of_lt le room) exponent inMember
  | tagged _ _ ih => exact ih room

theorem Numbered.vertices_lt (numbered : Numbered grid least basis numbering)
    (room : numbering.dofs < Index.limit) : grid.size 2 < Index.limit := by
  induction numbered with
  | @lagrange order basis created =>
      obtain ⟨-, counted⟩ := LagrangeBasis.create_eq_ok created
      change basis.dimension < Index.limit at room
      cases shape : basis.finite with
      | linear =>
          rw [shape] at counted
          exact (Except.ok.inj counted).symm ▸ room
      | quadratic =>
          rw [shape] at counted
          have := (Index.add_eq_ok_iff.mp counted).1
          omega
  | power _ _ _ _ ih => exact ih (Nat.lt_of_le_of_lt Numbering.dofs_le_power room)
  | @composite blocked members basis numbering _ _ ih =>
      have first := List.mem_map_of_mem (f := numbering) members.first_mem
      exact ih members.first members.first_mem
        (Nat.lt_of_le_of_lt (@Numbering.dofs_le_joined blocked _ _ first) room)
  | tagged _ _ ih => exact ih room

/-- What a new view and a new index set produce is in the numbering, whatever the dimension. -/
theorem Numbered.occurs_of_produces (numbered : Numbered grid least basis numbering)
    (produced : basis.Produces index) : numbering.Occurs (grid.size 0) index := by
  obtain ⟨element, inGrid, view, set, j, bound, found⟩ := produced
  rw [numbered.grid_eq] at inGrid
  obtain ⟨below, equal⟩ := (numbered.shows_of_bindFresh bound).index_eq_ok_iff.mp found
  exact ⟨element, inGrid, j, below, equal⟩

theorem Numbered.produces_iff_of_binds (numbered : Numbered grid least basis numbering)
    (binds : ∀ element < grid.size 0, ∃ pair, bindFresh basis element = .ok pair) :
    basis.Produces index ↔ numbering.Occurs (grid.size 0) index := by
  refine ⟨numbered.occurs_of_produces, ?_⟩
  rintro ⟨element, inGrid, j, below, rfl⟩
  obtain ⟨⟨view, set⟩, bound⟩ := binds element inGrid
  exact ⟨element, numbered.grid_eq.symm ▸ inGrid, view, set, j, bound,
    (numbered.shows_of_bindFresh bound).index_eq_ok below⟩

/-- With positive exponents nothing but the dimension has to be an index. -/
theorem Built.fits (built : Built grid 1 basis) (conforming : grid.Conforming)
    (nonempty : 0 < grid.size 0) (counted : basis.dimension = .ok dimension)
    (room : dimension < Index.limit) : basis.Fits grid := by
  obtain ⟨numbering, numbered⟩ := built.exists_numbering
  have has := numbered.hasNumbering conforming nonempty counted room
  exact .inr ⟨numbering, numbered.mono (Nat.zero_le 1), has.dofs ▸ room, has.places⟩

end Built

section Mesh

variable {basis : Basis} {dimension : Nat} {R : Type} {mesh : TriangleMesh R}
  {view : MeshView R Triangle} {tag : Nat}

/-- The container of every built basis has the sizes of the basis along all paths through
known parts, and a scalar at every index that is produced.  There are no other scalars if all
elements can be bound.  For this it is enough that the dimension and the bound on the local
sizes are indices with each exponent zero read as one; if there is none and no cell repeats
a vertex, the dimension alone suffices. -/
theorem container_mirrors_indices (viewed : MeshView.ofMesh mesh = .ok view)
    (vertices : view.size 2 < Index.limit) (built : Built (view.toGridView tag) 0 basis)
    (counted : basis.dimension = .ok dimension)
    (exponents : ∀ exponent ∈ basis.description.exponents, exponent < Index.limit) :
    ∃ node, basis.container = .ok node ∧
      (∀ path, MultiIndex.WithinSizes basis.size path → node.KnownAlong path →
        ∃ reached, node.descendant path = .ok reached ∧ basis.size path = .ok reached.size ∧
          (basis.Produces path → reached = .value)) ∧
      ((∀ element < view.size 0, ∃ pair, bindFresh basis element = .ok pair) →
        node.Mirrors basis.size basis.Produces) ∧
      (basis.Fits (view.toGridView tag) ∨
          mesh.Distinct ∧ Built (view.toGridView tag) 1 basis →
        ∀ element < view.size 0, ∃ pair, bindFresh basis element = .ok pair) ∧
      (node.Known → node.scalarCount = .ok (some dimension) ∧ node.depth = basis.maxIndexLength) ∧
      (¬ node.Known → node.scalarCount = .ok none) := by
  obtain ⟨numbering, numbered⟩ := built.exists_numbering
  obtain ⟨node, has⟩ :=
    numbered.exists_hasContainer (MeshView.covered viewed) vertices counted exponents
  refine ⟨node, has.contained, fun path within known => ?_, fun binds => ?_, ?_,
    fun known => ⟨has.measures.count known, has.measures.depth known⟩, has.measures.isOpen⟩
  · obtain ⟨reached, found, sized, isIndex⟩ := has.mirrors path within known
    exact ⟨reached, found, sized, fun produced => isIndex.mpr (numbered.occurs_of_produces produced)⟩
  · exact has.mirrors.congr (fun _ => rfl) (fun _ => numbered.produces_iff_of_binds binds)
  · intro small element inView
    have fits : basis.Fits (view.toGridView tag) := by
      rcases small with fits | ⟨distinct, positive⟩
      · exact fits
      · exact positive.fits (MeshView.conforming viewed distinct) (Nat.zero_lt_of_lt inView)
          counted (Built.dimension_lt vertices built counted)
    exact fits.exists_bindFresh (MeshView.hasTriangle viewed inView) inView

/-- Nothing is unknown in the container of two velocities and a pressure. -/
theorem container_mirrors_indices_square :
    ∃ node, Sample.flow.toBasis.container = .ok node ∧
      node.descendant [0, 1, 8] = .ok .value ∧ Sample.flow.toBasis.Produces [0, 1, 8] ∧
      ¬ Sample.flow.toBasis.Produces [1] ∧ node.scalarCount = .ok (some 22) ∧ node.depth = 3 := by
  have counted : Sample.flow.toBasis.dimension = .ok 22 := rfl
  obtain ⟨node, contained, -, mirrors, binds, measures, -⟩ :=
    container_mirrors_indices Sample.square_viewed (by decide)
      (Sample.flow_built.mono (Nat.zero_le 1)) counted (by decide)
  replace mirrors := mirrors (binds (.inr ⟨Sample.square_distinct, Sample.flow_built⟩))
  have flow : Sample.flow.toBasis.container = .ok (.block .tuple [.uniformArray 2 (.flatVector 9),
      .flatVector 4]) := rfl
  obtain rfl := Except.ok.inj (flow.symm.trans contained)
  have known : Descriptor.Known (.block .tuple [.uniformArray 2 (.flatVector 9), .flatVector 4]) := by
    refine .block (fun child inChildren => ?_)
    rcases List.mem_cons.mp inChildren with rfl | inRest
    · exact .uniform (.uniform .value)
    · obtain rfl := List.mem_singleton.mp inRest
      exact .uniform .value
  have pressure : MultiIndex.WithinSizes Sample.flow.toBasis.size [1] :=
    MultiIndex.withinSizes_cons_iff.mpr ⟨⟨2, rfl, by decide⟩, MultiIndex.withinSizes_nil⟩
  have velocity : MultiIndex.WithinSizes Sample.flow.toBasis.size [0, 1, 8] :=
    MultiIndex.withinSizes_cons_iff.mpr ⟨⟨2, rfl, by decide⟩,
      MultiIndex.withinSizes_cons_iff.mpr ⟨⟨2, rfl, by decide⟩,
        MultiIndex.withinSizes_cons_iff.mpr ⟨⟨9, rfl, by decide⟩, MultiIndex.withinSizes_nil⟩⟩⟩
  obtain ⟨block, foundBlock, -, isNoIndex⟩ := mirrors _ pressure (known.along _)
  obtain ⟨reached, found, -, isIndex⟩ := mirrors _ velocity (known.along _)
  obtain rfl : Descriptor.flatVector 4 = block := Except.ok.inj foundBlock
  obtain rfl : Descriptor.value = reached := Except.ok.inj found
  refine ⟨_, contained, found, isIndex.mp rfl, fun produced => ?_, measures known⟩
  exact absurd (isNoIndex.mpr produced) nofun

/-- The container has the scalars of a linear basis, but no element can be bound to the basis
because of the powers without copies in front of it. -/
theorem container_answers_blocked_empties :
    Built (Sample.triangleView.toGridView 0) 0 Sample.blockedEmpties.toBasis ∧
      Sample.blockedEmpties.toBasis.dimension = .ok 3 ∧
      ∃ node, Sample.blockedEmpties.toBasis.container = .ok node ∧
        MultiIndex.WithinSizes Sample.blockedEmpties.toBasis.size [1, 0] ∧
        node.KnownAlong [1, 0] ∧ node.descendant [1, 0] = .ok .value ∧
        ¬ Sample.blockedEmpties.toBasis.Produces [1, 0] := by
  refine ⟨Sample.blockedEmpties_built, rfl, _, rfl, ?_, ?_, rfl, ?_⟩
  · exact MultiIndex.withinSizes_cons_iff.mpr ⟨⟨2, rfl, by decide⟩,
      MultiIndex.withinSizes_cons_iff.mpr ⟨⟨3, rfl, by decide⟩, MultiIndex.withinSizes_nil⟩⟩
  · exact .cons nofun rfl (Descriptor.Known.along (.uniform .value) [0])
  · rintro ⟨element, inGrid, view, set, j, bound, -⟩
    obtain rfl : element = 0 := Nat.lt_one_iff.mp inGrid
    have stopped : bindFresh Sample.blockedEmpties.toBasis 0 = .error .arithmetic := rfl
    rw [stopped] at bound
    contradiction

end Mesh

end DofNumbering
