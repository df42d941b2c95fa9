import DofNumbering.Proofs.Basis.Composite
import DofNumbering.Proofs.Basis.Lagrange
import DofNumbering.Proofs.Basis.Power

namespace DofNumbering

/-! Bases that are built from Lagrange bases on one grid view.

A built basis has a numbering: the size of its local trees, the index of every
local degree of freedom, and the tree of all indices.  The numbering of a power
or a composite is that of its children, joined or interleaved.
-/

/-- The bases that come from Lagrange bases on a grid view by powers with
exponents of at least `least` and by composites. -/
inductive Built (grid : GridView) (least : Nat) : Basis → Prop where
  | lagrange {order : Nat} {basis : LagrangeBasis}
      (created : LagrangeBasis.create grid order = .ok basis) : Built grid least basis.toBasis
  | power {child : Basis} (merging : Merging) (exponent : Nat) (enough : least ≤ exponent)
      (childBuilt : Built grid least child) :
      Built grid least (PowerBasis.toBasis ⟨merging, exponent, child⟩)
  | composite {blocked : Bool} {members : Members} {basis : CompositeBasis}
      (created : CompositeBasis.create blocked members = .ok basis)
      (membersBuilt : ∀ member ∈ members.toList, Built grid least member) :
      Built grid least basis.toBasis
  /-- The same basis as another instance. -/
  | tagged {basis : Basis} (tag : Nat) (built : Built grid least basis) :
      Built grid least (basis.withTag tag)

/-- A built basis together with its numbering. -/
inductive Numbered (grid : GridView) (least : Nat) : Basis → Numbering → Prop where
  | lagrange {order : Nat} {basis : LagrangeBasis}
      (created : LagrangeBasis.create grid order = .ok basis) :
      Numbered grid least basis.toBasis basis.numbering
  | power {child : Basis} {numbering : Numbering} (merging : Merging) (exponent : Nat)
      (enough : least ≤ exponent) (childNumbered : Numbered grid least child numbering) :
      Numbered grid least (PowerBasis.toBasis ⟨merging, exponent, child⟩)
        (numbering.power merging exponent)
  | composite {blocked : Bool} {members : Members} {basis : CompositeBasis}
      (numbering : Basis → Numbering)
      (created : CompositeBasis.create blocked members = .ok basis)
      (membersNumbered : ∀ member ∈ members.toList,
        Numbered grid least member (numbering member)) :
      Numbered grid least basis.toBasis (.joined blocked (members.toList.map numbering))
  | tagged {basis : Basis} {numbering : Numbering} (tag : Nat)
      (numbered : Numbered grid least basis numbering) :
      Numbered grid least (basis.withTag tag) numbering

variable {grid : GridView} {least : Nat} {basis : Basis} {numbering : Numbering}

theorem Built.mono {least' : Nat} (le : least' ≤ least) (built : Built grid least basis) :
    Built grid least' basis := by
  induction built with
  | lagrange created => exact .lagrange created
  | power merging exponent enough _ ih => exact .power merging exponent (by omega) ih
  | composite created _ ih => exact .composite created ih
  | tagged tag _ ih => exact .tagged tag ih

theorem Numbered.mono {least' : Nat} (le : least' ≤ least)
    (numbered : Numbered grid least basis numbering) : Numbered grid least' basis numbering := by
  induction numbered with
  | lagrange created => exact .lagrange created
  | power merging exponent enough _ ih => exact .power merging exponent (by omega) ih
  | composite numbering created _ ih => exact .composite numbering created ih
  | tagged tag _ ih => exact .tagged tag ih

theorem Built.exists_numbering (built : Built grid least basis) :
    ∃ numbering, Numbered grid least basis numbering := by
  induction built with
  | lagrange created => exact ⟨_, .lagrange created⟩
  | power merging exponent enough _ ih =>
      obtain ⟨numbering, numbered⟩ := ih
      exact ⟨_, .power merging exponent enough numbered⟩
  | composite created _ ih =>
      choose! numbering numbered using ih
      exact ⟨_, .composite numbering created numbered⟩
  | tagged tag _ ih =>
      obtain ⟨numbering, numbered⟩ := ih
      exact ⟨_, .tagged tag numbered⟩

/-- A built basis does what its numbering says on every element that is a triangle. -/
theorem Numbered.realizes {element : Nat} (numbered : Numbered grid least basis numbering)
    (triangle : grid.HasTriangle element) (roomDofs : numbering.dofs < Index.limit)
    (roomPlaces : numbering.places < Index.limit) : basis.Realizes numbering element := by
  induction numbered with
  | lagrange created =>
      obtain ⟨rfl, counted⟩ := LagrangeBasis.create_eq_ok created
      exact LagrangeBasis.realizes triangle counted
  | power merging exponent enough _ ih =>
      exact PowerBasis.realizes (ih (Nat.lt_of_le_of_lt Numbering.dofs_le_power roomDofs)
        (Nat.lt_of_le_of_lt Numbering.places_le_power roomPlaces)) roomDofs roomPlaces
  | composite numbering created _ ih =>
      cases CompositeBasis.create_eq_ok created
      refine CompositeBasis.realizes (fun member inMembers => ?_) roomDofs roomPlaces
      have inParts := List.mem_map_of_mem (f := numbering) inMembers
      exact ih member inMembers (Nat.lt_of_le_of_lt (Numbering.dofs_le_joined inParts) roomDofs)
        (Nat.lt_of_le_of_lt (Numbering.places_le_joined inParts) roomPlaces)
  | tagged tag _ ih =>
      have realized := ih roomDofs roomPlaces
      exact { realized with
        bind := fun offset stride positive room => by
          obtain ⟨bound, binds⟩ := realized.bind offset stride positive room
          exact ⟨bound, { binds with }⟩ }

theorem Numbered.grid_eq (numbered : Numbered grid least basis numbering) : basis.grid = grid := by
  induction numbered with
  | lagrange created => exact (LagrangeBasis.create_eq_ok created).1
  | power _ _ _ _ ih => exact ih
  | @composite blocked members basis numbering created _ ih =>
      cases CompositeBasis.create_eq_ok created
      exact ih members.first members.first_mem
  | tagged _ _ ih => exact ih

theorem Built.grid_eq (built : Built grid least basis) : basis.grid = grid := by
  obtain ⟨numbering, numbered⟩ := built.exists_numbering
  exact numbered.grid_eq

theorem Built.exists_lagrange (built : Built grid least basis) :
    ∃ order lagrange, LagrangeBasis.create grid order = .ok lagrange := by
  induction built with
  | lagrange created => exact ⟨_, _, created⟩
  | power _ _ _ _ ih => exact ih
  | @composite _ members _ _ _ ih => exact ih members.first members.first_mem
  | tagged _ _ ih => exact ih

/-- Bases only exist on meshes of triangles, provided that polygons have as many faces as
vertices. -/
theorem Built.hasTriangle {R C : Type} [Cell C] {mesh : Mesh R C} {view : MeshView R C}
    {tag element : Nat}
    (polygons : ∀ cell : C, 3 ≤ (Cell.vertices cell).length →
      (Cell.faces cell).length = (Cell.vertices cell).length)
    (viewed : MeshView.ofMesh mesh = .ok view) (built : Built (view.toGridView tag) least basis)
    (inView : element < view.size 0) : (view.toGridView tag).HasTriangle element := by
  obtain ⟨order, lagrange, created⟩ := built.exists_lagrange
  have three := LagrangeBasis.numVertices_of_create created element inView
  obtain ⟨cell, foundCell, counted⟩ := bind_eq_ok_iff.mp three
  have found : mesh.cells[element]? = some cell := by
    obtain ⟨-, cells, -⟩ := MeshView.ofMesh_eq_ok viewed
    rw [Index.lookUp_eq_ok_iff, cells, List.getElem?_toArray] at foundCell
    exact foundCell
  have vertices : (Cell.vertices cell).length = 3 := Except.ok.inj counted
  have faces := polygons cell (Nat.le_of_eq vertices.symm)
  exact MeshView.hasTriangle_of_cell viewed found (by omega) (by omega)

/-- A number that a basis finds by multiplying and adding those of its children, and that
a numbering has if exponents zero are read as one. -/
structure Basis.Additive (value : Basis → Except Fault Nat) (number : Numbering → Nat) : Prop where
  atLeaf : ∀ basis : LagrangeBasis, value basis.toBasis = .ok (number basis.numbering)
  atPower : ∀ basis : PowerBasis,
    value basis.toBasis = value basis.child >>= Index.mul basis.exponent
  ofPower : ∀ merging exponent child,
    number (.power merging exponent child) = max 1 exponent * number child
  atComposite : ∀ basis : CompositeBasis,
    value basis.toBasis = Index.sumOver value basis.members.toList
  ofComposite : ∀ blocked parts, number (.joined blocked parts) = (parts.map number).sum
  atTag : ∀ tag basis, value (basis.withTag tag) = value basis

theorem Basis.additive_dimension : Additive Basis.dimension Numbering.dofs :=
  ⟨fun _ => rfl, fun _ => rfl, fun _ _ _ => rfl, fun _ => rfl, fun _ _ => rfl, fun _ _ => rfl⟩

theorem Basis.additive_maxNodeSize : Additive Basis.maxNodeSize Numbering.places :=
  ⟨fun _ => rfl, fun _ => rfl, fun _ _ _ => rfl, fun _ => rfl, fun _ _ => rfl, fun _ _ => rfl⟩

section Measures

variable {value : Basis → Except Fault Nat} {number : Numbering → Nat}

/-- If exponents are positive, the basis finds the number of its numbering. -/
theorem Numbered.measure_eq (additive : Basis.Additive value number)
    (numbered : Numbered grid 1 basis numbering) {total : Nat}
    (counted : value basis = .ok total) (room : total < Index.limit) : number numbering = total := by
  induction numbered generalizing total with
  | lagrange _ =>
      rw [additive.atLeaf] at counted
      exact Except.ok.inj counted
  | power merging exponent enough _ ih =>
      rw [additive.atPower] at counted
      obtain ⟨inner, countedChild, multiplied⟩ := bind_eq_ok_iff.mp counted
      obtain ⟨-, equal⟩ := Index.mul_eq_ok_iff.mp multiplied
      obtain rfl : total = exponent * inner := equal
      have le := Nat.le_mul_of_pos_left inner enough
      rw [additive.ofPower, ih countedChild (by omega), Nat.max_eq_right enough]
  | @composite blocked members basis numbering created _ ih =>
      cases CompositeBasis.create_eq_ok created
      rw [additive.atComposite] at counted
      have sum := @Index.of_sumFrom_eq_ok _ value (number ∘ numbering) members.toList 0 total counted
        (fun member inMembers term countedMember le => ih member inMembers countedMember (by omega))
      rw [sum, Nat.zero_add, additive.ofComposite, List.map_map]
  | tagged tag _ ih =>
      rw [additive.atTag] at counted
      exact ih counted room

theorem Numbered.measure_eq_ok (additive : Basis.Additive value number)
    (numbered : Numbered grid 1 basis numbering) (room : number numbering < Index.limit) :
    value basis = .ok (number numbering) := by
  induction numbered with
  | lagrange _ => exact additive.atLeaf _
  | @power child numbering merging exponent enough _ ih =>
      rw [additive.ofPower, Nat.max_eq_right enough] at room ⊢
      have le := Nat.le_mul_of_pos_left (number numbering) enough
      rw [additive.atPower, ih (by omega), ok_bind]
      exact if_pos room
  | @composite blocked members basis numbering created _ ih =>
      cases CompositeBasis.create_eq_ok created
      rw [additive.ofComposite, List.map_map] at room ⊢
      rw [additive.atComposite]
      refine Index.sumOver_eq_ok (fun member inMembers => ih member inMembers ?_) room
      have le := List.le_sum_of_mem (List.mem_map_of_mem (f := number ∘ numbering) inMembers)
      exact Nat.lt_of_le_of_lt le room
  | tagged tag _ ih =>
      rw [additive.atTag]
      exact ih room

end Measures

theorem Numbered.dofs_eq {dimension : Nat} (numbered : Numbered grid 1 basis numbering)
    (counted : basis.dimension = .ok dimension) (room : dimension < Index.limit) :
    numbering.dofs = dimension := numbered.measure_eq Basis.additive_dimension counted room

theorem Numbered.places_eq {size : Nat} (numbered : Numbered grid 1 basis numbering)
    (counted : basis.maxNodeSize = .ok size) (room : size < Index.limit) :
    numbering.places = size := numbered.measure_eq Basis.additive_maxNodeSize counted room

theorem Numbered.dofs_eq_zero (numbered : Numbered grid least basis numbering)
    (noFace : grid.size 1 = 0) (noVertex : grid.size 2 = 0) : numbering.dofs = 0 := by
  induction numbered with
  | @lagrange order basis created =>
      obtain ⟨-, counted⟩ := LagrangeBasis.create_eq_ok created
      change basis.dimension = 0
      cases shape : basis.finite with
      | linear =>
          rw [shape, LagrangeBasis.dofCount, noVertex] at counted
          exact (Except.ok.inj counted).symm
      | quadratic =>
          rw [shape, LagrangeBasis.dofCount, noVertex, noFace] at counted
          exact (Index.add_eq_ok_iff.mp counted).2
  | @power child numbering merging exponent enough _ ih =>
      change max 1 exponent * numbering.dofs = 0
      rw [ih, Nat.mul_zero]
  | @composite blocked members basis numbering created _ ih =>
      refine List.sum_eq_zero (fun dofs inParts => ?_)
      obtain ⟨part, inNumberings, rfl⟩ := List.mem_map.mp inParts
      obtain ⟨member, inMembers, rfl⟩ := List.mem_map.mp inNumberings
      exact ih member inMembers
  | tagged _ _ ih => exact ih

/-- What holds of the numberings of Lagrange bases, and passes from parts to their copies and
to the parts together, holds of all numberings of bases. -/
theorem Numbered.induct {holds : Numbering → Prop} (numbered : Numbered grid 1 basis numbering)
    (lagrange : ∀ basis : LagrangeBasis, basis.grid = grid →
      LagrangeBasis.dofCount grid basis.finite = .ok basis.dimension → holds basis.numbering)
    (power : ∀ merging exponent child, 0 < exponent → holds child →
      holds (.power merging exponent child))
    (joined : ∀ blocked parts, parts ≠ [] → (∀ part ∈ parts, holds part) →
      holds (.joined blocked parts)) : holds numbering := by
  induction numbered with
  | lagrange created =>
      obtain ⟨onGrid, counted⟩ := LagrangeBasis.create_eq_ok created
      exact lagrange _ onGrid counted
  | power merging exponent enough _ ih => exact power merging exponent _ enough ih
  | @composite blocked members basis numbering created _ ih =>
      exact joined blocked _ (by simp [Members.toList]) (List.forall_mem_map.mpr ih)
  | tagged _ _ ih => exact ih

theorem Numbered.covers (numbered : Numbered grid 1 basis numbering)
    (covered : grid.Covered) (nonempty : 0 < grid.size 0) : numbering.Covers (grid.size 0) := by
  refine numbered.induct ?_ (fun _ _ _ => Numbering.covers_power)
    (fun _ _ => Numbering.covers_joined)
  rintro basis rfl counted
  exact LagrangeBasis.covers covered nonempty counted

theorem Numbered.lawful (numbered : Numbered grid 1 basis numbering)
    (conforming : grid.Conforming) (nonempty : 0 < grid.size 0) :
    numbering.Lawful (grid.size 0) := by
  refine numbered.induct ?_ (fun _ _ _ => Numbering.lawful_power)
    (fun _ _ => Numbering.lawful_joined)
  rintro basis rfl counted
  exact LagrangeBasis.lawful conforming nonempty counted

/-- What the sizes of a basis say about its numbering. -/
structure Basis.Describes (basis : Basis) (tree : IndexTree) : Prop where
  sizedBy : basis.SizedBy tree
  hasDepth : tree.HasDepth basis.maxIndexLength

theorem Numbered.describes (numbered : Numbered grid 1 basis numbering)
    (covered : grid.Covered) (nonempty : 0 < grid.size 0)
    (room : numbering.dofs < Index.limit) : basis.Describes numbering.tree := by
  induction numbered with
  | lagrange created =>
      have covers := (Numbered.lagrange created).covers covered nonempty
      exact ⟨LagrangeBasis.sizedBy, LagrangeBasis.hasDepth covers.branching⟩
  | @power child numbering merging exponent enough childNumbered ih =>
      have roomChild := Nat.lt_of_le_of_lt Numbering.dofs_le_power room
      have covers := childNumbered.covers covered nonempty
      have countLe := Nat.mul_le_mul_left exponent numbering.tree.count_le_total
      have dofs : (numbering.power merging exponent).dofs = exponent * numbering.dofs :=
        congrArg (· * numbering.dofs) (Nat.max_eq_right enough)
      rw [covers.total] at countLe
      exact {
        sizedBy := PowerBasis.sizedBy (ih roomChild).sizedBy covers.branching enough (by omega)
        hasDepth := PowerBasis.hasDepth enough covers.branching (ih roomChild).hasDepth }
  | @composite blocked members basis numbering created membersNumbered ih =>
      cases CompositeBasis.create_eq_ok created
      have roomMember := fun member (inMembers : member ∈ members.toList) => Nat.lt_of_le_of_lt
        (Numbering.dofs_le_joined (List.mem_map_of_mem (f := numbering) inMembers)) room
      have covers := fun member inMembers =>
        (membersNumbered member inMembers).covers covered nonempty
      have branching := fun member inMembers => (covers member inMembers).branching
      have roomCount : ((members.toList.map (Numbering.tree ∘ numbering)).map
          IndexTree.count).sum < Index.limit := by
        refine Nat.lt_of_le_of_lt ?_ room
        change _ ≤ ((members.toList.map numbering).map Numbering.dofs).sum
        rw [List.map_map, List.map_map]
        refine List.sum_le_sum (fun member inMembers => ?_)
        exact (IndexTree.count_le_total _).trans_eq (covers member inMembers).total
      have sized := @CompositeBasis.sizedBy members (Numbering.tree ∘ numbering) blocked
        (fun member inMembers => (ih member inMembers (roomMember member inMembers)).sizedBy)
        roomCount
      have deep := @CompositeBasis.hasDepth members (Numbering.tree ∘ numbering) blocked
        (fun member inMembers => (ih member inMembers (roomMember member inMembers)).hasDepth)
        branching
      rw [← List.map_map] at sized deep
      exact ⟨sized, deep⟩
  | tagged _ _ ih =>
      have described := ih room
      exact ⟨described.sizedBy, described.hasDepth⟩

end DofNumbering
