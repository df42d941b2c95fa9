import DofNumbering.Description

namespace DofNumbering.Description

/-! The serialized form of descriptions. -/

mutual

def toJson : Description → Json
  | .lagrange order => .object [("Lagrange", .object [("order", .nat order)])]
  | .power child exponent merging =>
      .object [("Power", .object [("child", child.toJson), ("exponent", .nat exponent),
        ("blocked", .bool merging.blocked), ("layout", merging.layout.toJson)])]
  | .composite children merging =>
      .object [("Composite", .object [("children", .array (listToJson children)),
        ("blocked", .bool merging.blocked), ("layout", merging.layout.toJson)])]

def listToJson : List Description → List Json
  | [] => []
  | child :: rest => child.toJson :: listToJson rest

end

def mergingWithin? (room : Nat) (blocked layout : Json) : Option Merging := do
  let blocked ← blocked.bool?
  let layout ← Layout.ofJsonWithin? room layout
  some ⟨blocked, layout⟩

def mergingOfMembers? (room : Nat) (members : List (String × Json)) : Option Merging := do
  let blocked ← Json.member? "blocked" members
  let layout ← Json.member? "layout" members
  mergingWithin? room blocked layout

mutual

/-- Reads a description inside of a value; `room` more lists and objects may be
open.  Members of an object that have no meaning need no room. -/
def ofJsonWithin? : (room : Nat) → Json → Option Description
  | _ + 2, .object [("Lagrange", .array [order])] => order.index?.map .lagrange
  | _ + 2, .object [("Lagrange", .object members)] =>
      ((Json.member? "order" members).bind Json.index?).map .lagrange
  | room + 2, .object [("Power", .array [child, exponent, blocked, layout])] => do
      let child ← ofJsonWithin? room child
      let exponent ← exponent.index?
      let merging ← mergingWithin? room blocked layout
      some (.power child exponent merging)
  | room + 2, .object [("Power", .object members)] => do
      let child ← childWithin? room members
      let exponent ← (Json.member? "exponent" members).bind Json.index?
      let merging ← mergingOfMembers? room members
      some (.power child exponent merging)
  | room + 3, .object [("Composite", .array [.array children, blocked, layout])] => do
      let children ← listWithin? room children
      let merging ← mergingWithin? (room + 1) blocked layout
      some (.composite children merging)
  | room + 3, .object [("Composite", .object members)] => do
      let children ← childrenWithin? room members
      let merging ← mergingOfMembers? (room + 1) members
      some (.composite children merging)
  | _, _ => none

def listWithin? (room : Nat) : List Json → Option (List Description)
  | [] => some []
  | item :: rest => do
      let child ← ofJsonWithin? room item
      let children ← listWithin? room rest
      some (child :: children)

/-- Reads the child of a power node, which occurs exactly once among its members. -/
def childWithin? (room : Nat) : List (String × Json) → Option Description
  | [] => none
  | (name, item) :: rest =>
      if name = "child" then
        if rest.any (fun member => member.1 == "child") then none else ofJsonWithin? room item
      else childWithin? room rest

/-- Reads the list of the children of a composite node, which occurs exactly once
among its members; `room` is what is left inside of the list. -/
def childrenWithin? (room : Nat) : List (String × Json) → Option (List Description)
  | [] => none
  | (name, item) :: rest =>
      if name = "children" then
        if rest.any (fun member => member.1 == "children") then none
        else match item with
          | .array children => listWithin? room children
          | _ => none
      else childrenWithin? room rest

end

def ofJson? : Json → Option Description := ofJsonWithin? Json.maxNesting

end DofNumbering.Description
