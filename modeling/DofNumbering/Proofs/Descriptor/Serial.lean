import DofNumbering.Descriptor.Serial
import DofNumbering.Proofs.Descriptor
import DofNumbering.Proofs.Nesting

namespace DofNumbering

/-! The serialized form of descriptors, read back.

However a block is written, its parts are inside of two lists or objects.  So the serialized form
of a descriptor that was read, in whichever spelling, needs no more room than there was, and with
as much room it is read back.
-/

/-- A number of children of the same kind. -/
def Extent.resized (size : Nat) : Extent → Extent
  | .static _ => .static size
  | .dynamic _ => .dynamic size

theorem Extent.resized_size (extent : Extent) : extent.resized extent.size = extent := by
  cases extent <;> rfl

namespace Descriptor

/-- All stored sizes are representable. -/
inductive Bounded : Descriptor → Prop where
  | unknown : Bounded .unknown
  | value : Bounded .value
  | block {form : Form} {children : List Descriptor} (each : ∀ child ∈ children, Bounded child) :
      Bounded (.block form children)
  | uniform {extent : Extent} {child : Descriptor} (below : extent.size < Index.limit)
      (inner : Bounded child) : Bounded (.uniform extent child)

variable {node child : Descriptor} {children : List Descriptor} {form : Form} {extent : Extent}
  {room : Nat} {json : Json}

theorem bounded_block_iff : (block form children).Bounded ↔ ∀ child ∈ children, child.Bounded :=
  ⟨fun | .block each => each, .block⟩

theorem bounded_uniform_iff :
    (uniform extent child).Bounded ↔ extent.size < Index.limit ∧ child.Bounded :=
  ⟨fun | .uniform below inner => ⟨below, inner⟩, fun ⟨below, inner⟩ => .uniform below inner⟩

/-- The descriptor can be read from its serialized form where `room` lists and objects may be
open. -/
def Readable (room : Nat) (node : Descriptor) : Prop := node.Bounded ∧ node.toJson.nesting ≤ room

/-- A descriptor with parts that were read where two lists or objects less may be open. -/
inductive ReadStep : Nat → Descriptor → Prop where
  | unknown {room : Nat} : ReadStep room .unknown
  | value {room : Nat} : ReadStep room .value
  | block {room : Nat} {form : Form} {children : List Descriptor} {items : List Json}
      (each : items.mapM (ofJsonWithin? room) = some children) :
      ReadStep (room + 2) (.block form children)
  | uniform {room : Nat} {extent : Extent} {child : Descriptor} {item : Json}
      (below : extent.size < Index.limit) (inner : ofJsonWithin? room item = some child) :
      ReadStep (room + 2) (.uniform extent child)

section Nesting

theorem listToJson_eq_map : listToJson children = children.map toJson := by
  induction children with
  | nil => rfl
  | cons child rest ih => rw [List.map_cons, ← ih]; rfl

theorem nesting_block : (block form children).toJson.nesting =
    Json.nestingOfItems (children.map toJson) + 2 := by
  rw [← listToJson_eq_map]
  cases form <;> exact congrArg (· + 1) (Nat.max_zero _)

theorem nesting_uniform : (uniform extent child).toJson.nesting = child.toJson.nesting + 2 := by
  cases extent <;> simp [toJson, Json.nesting, Json.nestingOfMembers, Json.nat]

end Nesting

section Reading

theorem listWithin?_eq_mapM (items : List Json) :
    listWithin? room items = items.mapM (ofJsonWithin? room) := by
  induction items with
  | nil => rfl
  | cons item rest ih => rw [List.mapM_cons, ← ih]; rfl

theorem ofJsonWithin?_block : ofJsonWithin? (room + 2) (block form children).toJson =
    ((children.map toJson).mapM (ofJsonWithin? room)).map (block form) := by
  rw [← listWithin?_eq_mapM, ← listToJson_eq_map]
  cases form <;> rfl

theorem ofJsonWithin?_uniform (below : extent.size < Index.limit) :
    ofJsonWithin? (room + 2) (uniform extent child).toJson =
      (ofJsonWithin? room child.toJson).map (uniform extent) := by
  have read : (Json.nat extent.size).index? = some extent.size := Json.index?_nat below
  have written : ofJsonWithin? (room + 2) (uniform extent child).toJson =
      (Json.nat extent.size).index?.bind (fun size =>
        (ofJsonWithin? room child.toJson).map (uniform (extent.resized size))) := by
    cases extent <;> exact congrArg _ (funext fun _ => Option.map_eq_bind.symm)
  rw [written, read, Option.bind_some, extent.resized_size]

/-- A descriptor is read back where its serialized form may be open, and refused elsewhere. -/
theorem ofJsonWithin?_toJson (bounded : node.Bounded) :
    ofJsonWithin? room node.toJson = if node.toJson.nesting ≤ room then some node else none := by
  induction node generalizing room with
  | unknown => rfl
  | value => rfl
  | block form children ih =>
      have each := bounded_block_iff.mp bounded
      match room with
      | 0 => cases form <;> rfl
      | 1 => cases form <;> rfl
      | room + 2 =>
          rw [ofJsonWithin?_block, nesting_block, Json.mapM_map_of_each
            (fun child inChildren => ih child inChildren (each child inChildren))]
          exact Json.map_readable _ _ _ 2
  | uniform extent child ih =>
      obtain ⟨below, inner⟩ := bounded_uniform_iff.mp bounded
      match room with
      | 0 => cases extent <;> rfl
      | 1 => cases extent <;> rfl
      | room + 2 =>
          rw [ofJsonWithin?_uniform below, ih inner, nesting_uniform]
          exact Json.map_readable _ _ _ 2

theorem exists_of_childWithin? {members : List (String × Json)}
    (read : childWithin? room members = some child) :
    ∃ item, ofJsonWithin? room item = some child := by
  induction members with
  | nil => cases read
  | cons member rest ih =>
      obtain ⟨name, item⟩ := member
      unfold childWithin? at read
      split at read
      · split at read
        · cases read
        · exact ⟨item, read⟩
      · exact ih read

theorem readable_block (each : ∀ child ∈ children, child.Readable room) :
    (block form children).Readable (room + 2) := by
  refine ⟨.block (fun child inChildren => (each child inChildren).1), ?_⟩
  rw [nesting_block]
  exact Nat.add_le_add_right (Json.nestingOfItems_map_le_iff.mpr
    (fun child inChildren => (each child inChildren).2)) 2

theorem readable_uniform (below : extent.size < Index.limit) (inner : child.Readable room) :
    (uniform extent child).Readable (room + 2) := by
  refine ⟨.uniform below inner.1, ?_⟩
  rw [nesting_uniform]
  exact Nat.add_le_add_right inner.2 2

theorem ReadStep.of_block {items : List Json}
    (read : (listWithin? room items).map (.block form) = some node) : ReadStep (room + 2) node := by
  obtain ⟨children, each, rfl⟩ := Option.map_eq_some_iff.mp read
  exact .block (listWithin?_eq_mapM items ▸ each)

theorem ReadStep.of_uniform {size : Option Nat} {part : Option Descriptor} (extent : Nat → Extent)
    (below : ∀ number, size = some number → (extent number).size < Index.limit)
    (inner : ∀ child, part = some child → ∃ item, ofJsonWithin? room item = some child)
    (read : (size.bind fun number => part.bind fun child =>
      some (.uniform (extent number) child)) = some node) : ReadStep (room + 2) node := by
  obtain ⟨number, sizeRead, read⟩ := Option.bind_eq_some_iff.mp read
  obtain ⟨child, childRead, read⟩ := Option.bind_eq_some_iff.mp read
  cases read
  obtain ⟨item, itemRead⟩ := inner child childRead
  exact .uniform (below number sizeRead) itemRead

/-- Whichever way it is written, what is read has parts that were read. -/
theorem readStep_of_ofJsonWithin? (read : ofJsonWithin? room json = some node) :
    ReadStep room node := by
  unfold ofJsonWithin? at read
  split at read
  · cases read; exact .unknown
  · cases read; exact .value
  · cases read; exact .unknown
  · cases read; exact .value
  · exact .of_block read
  · exact .of_block read
  · exact .of_block read
  · exact .of_uniform .static (fun _ => Json.lt_limit_of_index?) (fun _ child => ⟨_, child⟩)
      read
  · exact .of_uniform .static (fun _ => Json.lt_limit_of_member?) (fun _ => exists_of_childWithin?)
      read
  · exact .of_uniform .dynamic (fun _ => Json.lt_limit_of_index?) (fun _ child => ⟨_, child⟩)
      read
  · exact .of_uniform .dynamic (fun _ => Json.lt_limit_of_member?) (fun _ => exists_of_childWithin?)
      read
  · cases read

theorem readable_of_ofJsonWithin? (read : ofJsonWithin? room json = some node) :
    node.Readable room := by
  induction room using Nat.strongRecOn generalizing json node with
  | ind room ih =>
      cases readStep_of_ofJsonWithin? read with
      | unknown => exact ⟨.unknown, Nat.zero_le _⟩
      | value => exact ⟨.value, Nat.zero_le _⟩
      | block items =>
          exact readable_block (Json.forall_of_mapM items (fun _ _ => ih _ (by omega)))
      | uniform below child => exact readable_uniform below (ih _ (by omega) child)

end Reading

theorem reads_back : Json.ReadsBack toJson ofJson? Bounded where
  written _ bounded := ofJsonWithin?_toJson bounded
  normalised json node read := by
    have readable := readable_of_ofJsonWithin? read
    rw [ofJson?, ofJsonWithin?_toJson readable.1, if_pos readable.2]

end Descriptor

end DofNumbering
