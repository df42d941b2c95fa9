import DofNumbering.Description.Serial
import DofNumbering.Proofs.Nesting

namespace DofNumbering.Description

/-! The serialized form of descriptions, read back.

The child of a power node is inside of two lists or objects, and the children of a composite node
are inside of three, however the nodes are written.
-/

/-- What holds of a node as soon as it holds of all its children holds of every tree. -/
@[elab_as_elim, induction_eliminator]
theorem induction {motive : Description → Prop} (lagrange : ∀ order, motive (.lagrange order))
    (power : ∀ child exponent merging, motive child → motive (.power child exponent merging))
    (composite : ∀ children merging, (∀ child ∈ children, motive child) →
      motive (.composite children merging)) :
    (node : Description) → motive node
  | .lagrange order => lagrange order
  | .power child exponent merging =>
      power child exponent merging (induction lagrange power composite child)
  | .composite children merging =>
      composite children merging (fun child _ => induction lagrange power composite child)

/-- All orders and exponents are representable. -/
inductive Bounded : Description → Prop where
  | lagrange {order : Nat} (below : order < Index.limit) : Bounded (.lagrange order)
  | power {child : Description} {exponent : Nat} {merging : Merging} (inner : Bounded child)
      (below : exponent < Index.limit) : Bounded (.power child exponent merging)
  | composite {children : List Description} {merging : Merging}
      (each : ∀ child ∈ children, Bounded child) : Bounded (.composite children merging)

/-- The description can be read from its serialized form where `room` lists and objects may be
open. -/
def Readable (room : Nat) (node : Description) : Prop := node.Bounded ∧ node.toJson.nesting ≤ room

/-- A description with parts that were read where less may be open: the fields of a node are two
levels below it, and the items of its list of children three. -/
inductive ReadStep : Nat → Description → Prop where
  | lagrange {room order : Nat} (below : order < Index.limit) :
      ReadStep (room + 2) (.lagrange order)
  | power {room : Nat} {child : Description} {exponent : Nat} {merging : Merging} {item : Json}
      (inner : ofJsonWithin? room item = some child) (below : exponent < Index.limit) :
      ReadStep (room + 2) (.power child exponent merging)
  | composite {room : Nat} {children : List Description} {merging : Merging} {items : List Json}
      (each : items.mapM (ofJsonWithin? room) = some children) :
      ReadStep (room + 3) (.composite children merging)

variable {node child : Description} {children : List Description} {merging : Merging}
  {order exponent room : Nat} {json : Json} {members : List (String × Json)}

section Nesting

theorem listToJson_eq_map : listToJson children = children.map toJson := by
  induction children with
  | nil => rfl
  | cons child rest ih => rw [List.map_cons, ← ih]; rfl

theorem nesting_layout (layout : Layout) : layout.toJson.nesting = 0 := by
  cases layout <;> rfl

theorem nesting_power :
    (power child exponent merging).toJson.nesting = child.toJson.nesting + 2 := by
  simp [toJson, Json.nesting, Json.nestingOfMembers, Json.nat, nesting_layout]

theorem nesting_composite : (composite children merging).toJson.nesting =
    Json.nestingOfItems (children.map toJson) + 3 := by
  simp [toJson, Json.nesting, Json.nestingOfMembers, listToJson_eq_map, nesting_layout]

end Nesting

section Writing

theorem listWithin?_eq_mapM (items : List Json) :
    listWithin? room items = items.mapM (ofJsonWithin? room) := by
  induction items with
  | nil => rfl
  | cons item rest ih => rw [List.mapM_cons, ← ih]; rfl

theorem mergingWithin?_toJson (room : Nat) (merging : Merging) :
    mergingWithin? room (.bool merging.blocked) merging.layout.toJson = some merging := by
  obtain ⟨blocked, layout⟩ := merging
  cases layout <;> cases room <;> rfl

theorem ofJsonWithin?_lagrange (below : order < Index.limit) :
    ofJsonWithin? (room + 2) (lagrange order).toJson = some (lagrange order) := by
  have read : (Json.nat order).index? = some order := Json.index?_nat below
  exact congrArg (Option.map lagrange) read

theorem ofJsonWithin?_power (below : exponent < Index.limit) :
    ofJsonWithin? (room + 2) (power child exponent merging).toJson =
      (ofJsonWithin? room child.toJson).map (power · exponent merging) := by
  have read : (Json.nat exponent).index? = some exponent := Json.index?_nat below
  change ((ofJsonWithin? room child.toJson).bind fun child =>
    (Json.nat exponent).index?.bind fun exponent =>
      (mergingWithin? room (.bool merging.blocked) merging.layout.toJson).bind fun merging =>
        some (power child exponent merging)) = _
  rw [read, mergingWithin?_toJson]
  exact Option.map_eq_bind.symm

theorem ofJsonWithin?_composite :
    ofJsonWithin? (room + 3) (composite children merging).toJson =
      ((children.map toJson).mapM (ofJsonWithin? room)).map (composite · merging) := by
  change ((listWithin? room (listToJson children)).bind fun children =>
    (mergingWithin? (room + 1) (.bool merging.blocked) merging.layout.toJson).bind fun merging =>
      some (composite children merging)) = _
  rw [mergingWithin?_toJson, listWithin?_eq_mapM, listToJson_eq_map]
  exact Option.map_eq_bind.symm

/-- A description is read back where its serialized form may be open, and refused elsewhere. -/
theorem ofJsonWithin?_toJson (bounded : node.Bounded) :
    ofJsonWithin? room node.toJson = if node.toJson.nesting ≤ room then some node else none := by
  induction node generalizing room with
  | lagrange order =>
      cases bounded with
      | lagrange below =>
          match room with
          | 0 => rfl
          | 1 => rfl
          | room + 2 =>
              rw [ofJsonWithin?_lagrange below]
              exact (if_pos (Nat.le_add_left 2 room)).symm
  | power child exponent merging ih =>
      cases bounded with
      | power inner below =>
          match room with
          | 0 => rfl
          | 1 => rfl
          | room + 2 =>
              rw [ofJsonWithin?_power below, ih inner, nesting_power]
              exact Json.map_readable _ _ _ 2
  | composite children merging ih =>
      cases bounded with
      | composite each =>
          match room with
          | 0 => rfl
          | 1 => rfl
          | 2 =>
              rw [nesting_composite]
              exact (if_neg (by omega)).symm
          | room + 3 =>
              rw [ofJsonWithin?_composite, nesting_composite, Json.mapM_map_of_each
                (fun child inChildren => ih child inChildren (each child inChildren))]
              exact Json.map_readable _ _ _ 3

end Writing

section Reading

theorem exists_of_childWithin? (read : childWithin? room members = some child) :
    ∃ item, ofJsonWithin? room item = some child := by
  induction members with
  | nil => cases read
  | cons member rest ih =>
      obtain ⟨name, item⟩ := member
      unfold childWithin? at read
      split at read
      · split at read
        · cases read
        · exact ⟨item, read⟩
      · exact ih read

theorem exists_of_childrenWithin? (read : childrenWithin? room members = some children) :
    ∃ items, listWithin? room items = some children := by
  induction members with
  | nil => cases read
  | cons member rest ih =>
      unfold childrenWithin? at read
      split at read
      · split at read
        · cases read
        · split at read
          · exact ⟨_, read⟩
          · cases read
      · exact ih read

theorem ReadStep.of_lagrange {part : Option Nat}
    (small : ∀ order, part = some order → order < Index.limit)
    (read : part.map .lagrange = some node) : ReadStep (room + 2) node := by
  obtain ⟨order, orderRead, rfl⟩ := Option.map_eq_some_iff.mp read
  exact .lagrange (small order orderRead)

theorem ReadStep.of_power {part : Option Description} {size : Option Nat} {rule : Option Merging}
    (inner : ∀ child, part = some child → ∃ item, ofJsonWithin? room item = some child)
    (small : ∀ exponent, size = some exponent → exponent < Index.limit)
    (read : (part.bind fun child => size.bind fun exponent => rule.bind fun merging =>
      some (.power child exponent merging)) = some node) : ReadStep (room + 2) node := by
  obtain ⟨child, childRead, read⟩ := Option.bind_eq_some_iff.mp read
  obtain ⟨exponent, exponentRead, read⟩ := Option.bind_eq_some_iff.mp read
  obtain ⟨merging, -, read⟩ := Option.bind_eq_some_iff.mp read
  cases read
  obtain ⟨item, itemRead⟩ := inner child childRead
  exact .power itemRead (small exponent exponentRead)

theorem ReadStep.of_composite {parts : Option (List Description)} {rule : Option Merging}
    (inner : ∀ children, parts = some children → ∃ items, listWithin? room items = some children)
    (read : (parts.bind fun children => rule.bind fun merging =>
      some (.composite children merging)) = some node) : ReadStep (room + 3) node := by
  obtain ⟨children, childrenRead, read⟩ := Option.bind_eq_some_iff.mp read
  obtain ⟨merging, -, read⟩ := Option.bind_eq_some_iff.mp read
  cases read
  obtain ⟨items, itemsRead⟩ := inner children childrenRead
  exact .composite (listWithin?_eq_mapM items ▸ itemsRead)

/-- Whichever way it is written, what is read has parts that were read. -/
theorem readStep_of_ofJsonWithin? (read : ofJsonWithin? room json = some node) :
    ReadStep room node := by
  unfold ofJsonWithin? at read
  split at read
  · exact .of_lagrange (fun _ => Json.lt_limit_of_index?) read
  · exact .of_lagrange (fun _ => Json.lt_limit_of_member?) read
  · exact .of_power (fun _ child => ⟨_, child⟩) (fun _ => Json.lt_limit_of_index?) read
  · exact .of_power (fun _ => exists_of_childWithin?) (fun _ => Json.lt_limit_of_member?) read
  · exact .of_composite (fun _ items => ⟨_, items⟩) read
  · exact .of_composite (fun _ => exists_of_childrenWithin?) read
  · cases read

theorem readable_composite (each : ∀ child ∈ children, child.Readable room) :
    (composite children merging).Readable (room + 3) := by
  refine ⟨.composite (fun child inChildren => (each child inChildren).1), ?_⟩
  rw [nesting_composite]
  exact Nat.add_le_add_right (Json.nestingOfItems_map_le_iff.mpr
    (fun child inChildren => (each child inChildren).2)) 3

theorem readable_power (inner : child.Readable room) (below : exponent < Index.limit) :
    (power child exponent merging).Readable (room + 2) := by
  refine ⟨.power inner.1 below, ?_⟩
  rw [nesting_power]
  exact Nat.add_le_add_right inner.2 2

theorem readable_of_ofJsonWithin? (read : ofJsonWithin? room json = some node) :
    node.Readable room := by
  induction room using Nat.strongRecOn generalizing json node with
  | ind room ih =>
      cases readStep_of_ofJsonWithin? read with
      | lagrange below => exact ⟨.lagrange below, Nat.le_add_left 2 _⟩
      | power child below => exact readable_power (ih _ (by omega) child) below
      | composite items =>
          exact readable_composite (Json.forall_of_mapM items (fun _ _ => ih _ (by omega)))

end Reading

theorem reads_back : Json.ReadsBack toJson ofJson? Bounded where
  written _ bounded := ofJsonWithin?_toJson bounded
  normalised json node read := by
    have readable := readable_of_ofJsonWithin? read
    rw [ofJson?, ofJsonWithin?_toJson readable.1, if_pos readable.2]

end DofNumbering.Description
