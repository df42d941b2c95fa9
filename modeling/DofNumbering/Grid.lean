import DofNumbering.Json

namespace DofNumbering

/-! Grid views: the entities of a conforming grid.

Entities are organized by codimension: elements have codimension 0, vertices the
dimension of the grid.  Those of one codimension are numbered from zero on, so
an entity is known by its codimension and its number.
-/

structure Entity where
  codim : Nat
  index : Nat
deriving DecidableEq, Repr

namespace Entity

def element (index : Nat) : Entity := ⟨0, index⟩

/-- Entities are ordered by codimension first. -/
def order (left right : Entity) : Ordering :=
  (compare left.codim right.codim).then (compare left.index right.index)

def toJson (entity : Entity) : Json :=
  .object [("codim", .nat entity.codim), ("index", .nat entity.index)]

def ofJson? (json : Json) : Option Entity :=
  match json.fields? ["codim", "index"] with
  | some [codim, index] => do
      let codim ← codim.index?
      let index ← index.index?
      some ⟨codim, index⟩
  | _ => none

end Entity

/-- Consecutive entities of one codimension, from number `first` up to number
`past` exclusively. -/
structure Entities where
  codim : Nat
  first : Nat
  past : Nat
deriving DecidableEq, Repr

namespace Entities

def remaining (entities : Entities) : Nat := entities.past - entities.first

/-- Takes an entity from the front. -/
def next? (entities : Entities) : Option (Entity × Entities) :=
  if entities.first < entities.past then
    some (⟨entities.codim, entities.first⟩, { entities with first := entities.first + 1 })
  else none

/-- Takes an entity from the back. -/
def nextBack? (entities : Entities) : Option (Entity × Entities) :=
  if entities.first < entities.past then
    some (⟨entities.codim, entities.past - 1⟩, { entities with past := entities.past - 1 })
  else none

/-- Takes an entity from the front or from the back each time, and tells how many
remain. -/
def walk : (fromFront : List Bool) → Entities → List (Option Entity × Nat)
  | [], _ => []
  | fromFront :: rest, entities =>
      match if fromFront then entities.next? else entities.nextBack? with
      | some (entity, left) => (some entity, left.remaining) :: walk rest left
      | none => (none, entities.remaining) :: walk rest entities

def toList (entities : Entities) : List Entity :=
  (List.range' entities.first entities.remaining).map (⟨entities.codim, ·⟩)

end Entities

/-- What a grid tells about its entities.  Two views are the same instance
exactly if they have the same tag; two instances may show the same entities. -/
structure GridView where
  tag : Nat
  dimension : Nat
  /-- The number of entities of a codimension. -/
  size : Nat → Nat
  /-- The number of subentities of an element in a codimension. -/
  numSubEntities : (element codim : Nat) → Except Fault Nat
  /-- The number of a subentity among all entities of its codimension. -/
  subEntity : (element codim position : Nat) → Except Fault Nat

namespace GridView

def contains (grid : GridView) (entity : Entity) : Bool :=
  entity.codim ≤ grid.dimension && entity.index < grid.size entity.codim

def entities (grid : GridView) (codim : Nat) : Entities := ⟨codim, 0, grid.size codim⟩

/-- The same entities as another instance. -/
def withTag (tag : Nat) (grid : GridView) : GridView := { grid with tag }

/-- The subentities of an element in a codimension, in their local order. -/
def subEntities (grid : GridView) (element codim : Nat) : Except Fault (List Nat) := do
  let count ← grid.numSubEntities element codim
  Index.collect (grid.subEntity element codim) 0 count

/-- The subentities of all elements in a codimension. -/
def allSubEntities (grid : GridView) (codim : Nat) : Except Fault (List (List Nat)) :=
  Index.collect (fun element => grid.subEntities element codim) 0 (grid.size 0)

end GridView

end DofNumbering
