import DofNumbering.Basis.TaylorHood
import DofNumbering.Local.View
import DofNumbering.Proofs.Samples
import Mathlib.Order.Bounds.Basic

namespace DofNumbering

/-! All leaves of a basis live on one instance of a grid view.

A composite only compares the instances of its members, each of which stands for all
leaves below it.
-/

/-- The bases that are constructed on instances of grid views, together with their leaves.
An instance is known by its tag, whatever its entities are. -/
inductive Constructed (instances : Nat → GridView) : List LagrangeBasis → Basis → Prop
  | lagrange {tag order : Nat} {basis : LagrangeBasis}
      (created : LagrangeBasis.create ((instances tag).withTag tag) order = .ok basis) :
      Constructed instances [basis] basis.toBasis
  | power {leaves : List LagrangeBasis} {child : Basis} (merging : Merging) (exponent : Nat)
      (constructed : Constructed instances leaves child) :
      Constructed instances leaves (PowerBasis.toBasis ⟨merging, exponent, child⟩)
  | composite {blocked : Bool} {members : Members} {basis : CompositeBasis}
      {leaves : Nat → List LagrangeBasis}
      (created : CompositeBasis.create blocked members = .ok basis)
      (constructed : ∀ k member, members.toList[k]? = some member →
        Constructed instances (leaves k) member) :
      Constructed instances ((List.range members.count).flatMap leaves) basis.toBasis
  | taylorHood {tag dimension : Nat} {velocity : LagrangeBasis} {basis : TaylorHoodBasis}
      (quadratic : LagrangeBasis.create ((instances tag).withTag tag) 2 = .ok velocity)
      (created : TaylorHoodBasis.create ((instances tag).withTag tag) dimension = .ok basis) :
      Constructed instances [velocity, basis.pressure] basis.toBasis
  /-- A reference to a basis is an instance of its own. -/
  | reference {leaves : List LagrangeBasis} {basis : Basis} (tag : Nat)
      (constructed : Constructed instances leaves basis) :
      Constructed instances leaves (basis.withTag tag)

namespace Members

variable {members : Members}

theorem foreign?_eq_none_iff : members.foreign? = none ↔
    ∀ member ∈ members.toList, member.grid.tag = members.grid.tag := by
  simp [foreign?, List.findIdx?_eq_none_iff]

/-- The first foreign member is the least of them. -/
theorem foreign?_eq_some_iff {k : Nat} : members.foreign? = some k ↔
    IsLeast {k | ∃ member, members.toList[k]? = some member ∧
      member.grid.tag ≠ members.grid.tag} k := by
  rw [foreign?, List.findIdx?_eq_some_iff_getElem]
  constructor
  · rintro ⟨below, foreign, earlier⟩
    refine ⟨⟨_, List.getElem?_eq_getElem below, by simpa using foreign⟩, ?_⟩
    rintro other ⟨member, found, different⟩
    by_contra before
    have same := earlier other (Nat.lt_of_not_le before)
    obtain ⟨_, rfl⟩ := List.getElem?_eq_some_iff.mp found
    exact different (by simpa using same)
  · rintro ⟨⟨member, found, different⟩, least⟩
    obtain ⟨below, rfl⟩ := List.getElem?_eq_some_iff.mp found
    refine ⟨below, by simpa using different, fun other before => ?_⟩
    by_contra same
    have inMembers := List.getElem?_eq_getElem (Nat.lt_trans before below)
    exact Nat.not_le_of_lt before (least ⟨_, inMembers, by simpa using same⟩)

end Members

namespace CompositeBasis

variable {blocked : Bool} {members : Members}

theorem create_isOk_iff : (∃ basis, create blocked members = .ok basis) ↔
    ∀ member ∈ members.toList, member.grid.tag = members.grid.tag := by
  rw [← Members.foreign?_eq_none_iff, create, Members.checkGridViews]
  cases members.foreign? with
  | none => exact iff_of_true ⟨_, rfl⟩ rfl
  | some child =>
      refine iff_of_false (fun accepted => ?_) (Option.some_ne_none child)
      obtain ⟨basis, accepted⟩ := accepted
      contradiction

theorem create_eq_error_iff {reason : Refusal} : create blocked members = .error reason ↔
    ∃ k, reason = .mismatchedGridViews k ∧ members.foreign? = some k := by
  rw [create, Members.checkGridViews]
  cases members.foreign? with
  | none =>
      refine iff_of_false (fun refused => ?_) (fun found => ?_)
      · contradiction
      · obtain ⟨k, -, found⟩ := found
        contradiction
  | some child =>
      constructor
      · intro refused
        exact ⟨child, (Except.error.inj refused).symm, rfl⟩
      · rintro ⟨k, rfl, found⟩
        rw [Option.some.inj found]
        rfl

end CompositeBasis

theorem TaylorHoodBasis.create_eq_ok {grid : GridView} {dimension : Nat} {basis : TaylorHoodBasis}
    (created : create grid dimension = .ok basis) : ∃ velocity,
      LagrangeBasis.create grid 2 = .ok velocity ∧
      LagrangeBasis.create grid 1 = .ok basis.pressure ∧
      basis.toBasis = CompositeBasis.toBasis ⟨true,
        ⟨PowerBasis.toBasis ⟨.flatInterleaved, dimension, velocity.toBasis⟩,
          [basis.pressure.toBasis]⟩⟩ := by
  unfold create at created
  split at created
  · obtain ⟨velocity, quadratic, rest⟩ := bind_eq_ok_iff.mp created
    obtain ⟨pressure, linear, rest⟩ := bind_eq_ok_iff.mp rest
    split at rest
    · rename_i composite done
      obtain rfl := Except.ok.inj rest
      exact ⟨velocity, quadratic, linear, congrArg _ (CompositeBasis.create_eq_ok done)⟩
    · contradiction
  · contradiction

/-- A Taylor-Hood basis is a composite of a power and a Lagrange basis. -/
theorem TaylorHoodBasis.built {grid : GridView} {least dimension : Nat} {basis : TaylorHoodBasis}
    (enough : least ≤ dimension) (created : create grid dimension = .ok basis) :
    Built grid least basis.toBasis := by
  obtain ⟨velocity, quadratic, linear, same⟩ := create_eq_ok created
  let members : Members := ⟨PowerBasis.toBasis ⟨.flatInterleaved, dimension, velocity.toBasis⟩,
    [basis.pressure.toBasis]⟩
  have sameTag : ∀ member ∈ members.toList, member.grid.tag = members.grid.tag := by
    refine List.forall_mem_cons.mpr ⟨rfl, List.forall_mem_singleton.mpr ?_⟩
    exact congrArg GridView.tag ((LagrangeBasis.create_eq_ok linear).1.trans
      (LagrangeBasis.create_eq_ok quadratic).1.symm)
  obtain ⟨composite, accepted⟩ := (@CompositeBasis.create_isOk_iff true _).mpr sameTag
  rw [same, ← CompositeBasis.create_eq_ok accepted]
  exact .composite accepted (List.forall_mem_cons.mpr
    ⟨.power _ _ enough (.lagrange quadratic), List.forall_mem_singleton.mpr (.lagrange linear)⟩)

variable {instances : Nat → GridView} {leaves : List LagrangeBasis} {basis : Basis}

/-- Members with one tag live on one instance. -/
theorem CompositeBasis.member_grid_eq {blocked : Bool} {members : Members}
    {composite : CompositeBasis} (created : create blocked members = .ok composite)
    (onInstances : ∀ member ∈ members.toList, ∃ tag, member.grid = (instances tag).withTag tag) :
    ∀ member ∈ members.toList, member.grid = members.grid := by
  intro member inMembers
  obtain ⟨tag, onGrid⟩ := onInstances members.first List.mem_cons_self
  obtain ⟨tag', onGrid'⟩ := onInstances member inMembers
  have same := create_isOk_iff.mp ⟨_, created⟩ member inMembers
  rw [onGrid', Members.grid, onGrid] at same
  obtain rfl : tag' = tag := same
  rw [onGrid', Members.grid, onGrid]

namespace Constructed

/-- The grid view of a basis is an instance. -/
theorem exists_instance (constructed : Constructed instances leaves basis) :
    ∃ tag, basis.grid = (instances tag).withTag tag := by
  induction constructed with
  | lagrange created => exact ⟨_, (LagrangeBasis.create_eq_ok created).1⟩
  | power _ _ _ ih => exact ih
  | @composite blocked members _ _ created _ ih =>
      cases CompositeBasis.create_eq_ok created
      exact ih 0 members.first rfl
  | taylorHood _ created => exact ⟨_, (TaylorHoodBasis.built (Nat.zero_le _) created).grid_eq⟩
  | reference _ _ ih => exact ih

/-- The members of a composite live on the instance of the composite. -/
theorem member_grid_eq {blocked : Bool} {members : Members} {basis : CompositeBasis}
    {leaves : Nat → List LagrangeBasis} (created : CompositeBasis.create blocked members = .ok basis)
    (constructed : ∀ k member, members.toList[k]? = some member →
      Constructed instances (leaves k) member) :
    ∀ member ∈ members.toList, member.grid = basis.toBasis.grid := by
  have onInstances : ∀ member ∈ members.toList, ∃ tag, member.grid = (instances tag).withTag tag := by
    intro member inMembers
    obtain ⟨k, found⟩ := List.mem_iff_getElem?.mp inMembers
    exact (constructed k member found).exists_instance
  cases CompositeBasis.create_eq_ok created
  exact CompositeBasis.member_grid_eq created onInstances

theorem leaf_grid_eq (constructed : Constructed instances leaves basis) :
    ∀ leaf ∈ leaves, leaf.grid = basis.grid := by
  induction constructed with
  | lagrange _ => exact List.forall_mem_singleton.mpr rfl
  | power _ _ _ ih => exact ih
  | @composite blocked members basis leaves created constructed ih =>
      intro leaf inLeaves
      obtain ⟨k, inRange, inMember⟩ := List.mem_flatMap.mp inLeaves
      have found := members.getElem?_toList (List.mem_range.mp inRange)
      exact (ih k _ found leaf inMember).trans
        (member_grid_eq created constructed _ (List.mem_of_getElem? found))
  | taylorHood quadratic created =>
      obtain ⟨-, -, linear, -⟩ := TaylorHoodBasis.create_eq_ok created
      rw [(TaylorHoodBasis.built (Nat.zero_le _) created).grid_eq]
      exact List.forall_mem_cons.mpr ⟨(LagrangeBasis.create_eq_ok quadratic).1,
        List.forall_mem_singleton.mpr (LagrangeBasis.create_eq_ok linear).1⟩
  | reference _ _ ih => exact ih

end Constructed

/-- All leaves of a basis live on the very instance that the basis names as its grid view, so
what a view accepts as an element is an element for every leaf.  A composite is refused
exactly if some member lives on another instance than the first one, whether or not both
have the same entities, and the refusal names the least such member. -/
theorem leaves_share_grid_instance (constructed : Constructed instances leaves basis) :
    (∀ leaf ∈ leaves, leaf.grid = basis.grid) ∧
    (∀ (blocked : Bool) (members : Members),
      ((∃ composite, CompositeBasis.create blocked members = .ok composite) ↔
        ∀ member ∈ members.toList, member.grid.tag = members.first.grid.tag) ∧
      ∀ reason, CompositeBasis.create blocked members = .error reason ↔
        ∃ k, reason = .mismatchedGridViews k ∧
          IsLeast {k | ∃ member, members.toList[k]? = some member ∧
            member.grid.tag ≠ members.first.grid.tag} k) ∧
    ∀ (view : LocalView) (entity : Entity), view.basis = basis →
      view.bind entity = .error .notAnElement ∨
      view.bind entity = .error (.foreignElement entity.index) ∨
      (entity.codim = 0 ∧ ∀ leaf ∈ leaves, leaf.grid.contains entity = true) := by
  have each := constructed.leaf_grid_eq
  refine ⟨each, fun blocked members => ⟨CompositeBasis.create_isOk_iff, fun reason => ?_⟩,
    fun view entity owner => ?_⟩
  · rw [CompositeBasis.create_eq_error_iff]
    exact exists_congr (fun k => and_congr_right (fun _ => Members.foreign?_eq_some_iff))
  · by_cases isElement : entity.codim = 0
    · by_cases contained : basis.grid.contains entity = true
      · exact .inr (.inr ⟨isElement, fun leaf inLeaves => each leaf inLeaves ▸ contained⟩)
      · refine .inr (.inl ?_)
        rw [LocalView.bind, if_neg (not_not.mpr isElement), owner, if_neg contained]
    · exact .inl (if_pos isElement)

/-- The leaves of a flow live on one instance, and no composite takes a basis on another
instance of the same square. -/
theorem leaves_share_grid_instance_square :
    Constructed (fun _ => Sample.squareView.toGridView 0) [Sample.quadratic, Sample.linear]
      Sample.flow.toBasis ∧
    (∀ leaf ∈ [Sample.quadratic, Sample.linear], leaf.grid = Sample.flow.toBasis.grid) ∧
    ∀ other : LagrangeBasis, LagrangeBasis.create (Sample.squareView.toGridView 1) 1 = .ok other →
      CompositeBasis.create true ⟨Sample.flow.toBasis, [Sample.linear.toBasis, other.toBasis]⟩ =
        .error (.mismatchedGridViews 2) := by
  have quadratic : Constructed (fun _ => Sample.squareView.toGridView 0) [Sample.quadratic]
      Sample.quadratic.toBasis := @Constructed.lagrange _ 0 2 _ Sample.quadratic_created
  have linear : Constructed (fun _ => Sample.squareView.toGridView 0) [Sample.linear]
      Sample.linear.toBasis := @Constructed.lagrange _ 0 1 _ Sample.linear_created
  have constructed : Constructed (fun _ => Sample.squareView.toGridView 0)
      [Sample.quadratic, Sample.linear] Sample.flow.toBasis := by
    refine @Constructed.composite _ true Sample.flow.members Sample.flow
      (fun k => if k = 0 then [Sample.quadratic] else [Sample.linear]) rfl (fun k member found => ?_)
    match k with
    | 0 => exact Option.some.inj found ▸ .power _ _ quadratic
    | 1 => exact Option.some.inj found ▸ linear
  obtain ⟨same, refused, -⟩ := leaves_share_grid_instance constructed
  refine ⟨constructed, same, fun other created => ?_⟩
  have otherTag : other.grid.tag = 1 := congrArg GridView.tag (LagrangeBasis.create_eq_ok created).1
  refine ((refused true _).2 _).mpr ⟨2, rfl, ⟨other.toBasis, rfl, ?_⟩, ?_⟩
  · exact fun sameTag => Nat.one_ne_zero (otherTag.symm.trans sameTag)
  · rintro k ⟨member, found, different⟩
    match k with
    | 0 => exact absurd (Option.some.inj found ▸ rfl) different
    | 1 => exact absurd (Option.some.inj found ▸ rfl) different
    | k + 2 => exact Nat.le_add_left 2 k

end DofNumbering
