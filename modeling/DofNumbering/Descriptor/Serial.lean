import DofNumbering.Descriptor
import DofNumbering.Json

namespace DofNumbering

/-! The serialized form of descriptors. -/

def Extent.toJson : Extent → Json
  | .static size => .object [("Static", .nat size)]
  | .dynamic size => .object [("Dynamic", .nat size)]

def Extent.ofJson? : Json → Option Extent
  | .object [("Static", size)] => size.index?.map .static
  | .object [("Dynamic", size)] => size.index?.map .dynamic
  | _ => none

namespace Descriptor

mutual

def toJson : Descriptor → Json
  | .unknown => .text "Unknown"
  | .value => .text "Value"
  | .block .tuple children => .object [("Tuple", .array (listToJson children))]
  | .block .array children => .object [("Array", .array (listToJson children))]
  | .block .vector children => .object [("Vector", .array (listToJson children))]
  | .uniform (.static size) child =>
      .object [("UniformArray", .object [("size", .nat size), ("child", child.toJson)])]
  | .uniform (.dynamic size) child =>
      .object [("UniformVector", .object [("size", .nat size), ("child", child.toJson)])]

def listToJson : List Descriptor → List Json
  | [] => []
  | child :: rest => child.toJson :: listToJson rest

end

mutual

/-- Reads a descriptor inside of a value; `room` more lists and objects may be
open.  Members of an object that have no meaning need no room. -/
def ofJsonWithin? : (room : Nat) → Json → Option Descriptor
  | _, .text "Unknown" => some .unknown
  | _, .text "Value" => some .value
  | _ + 1, .object [("Unknown", .null)] => some .unknown
  | _ + 1, .object [("Value", .null)] => some .value
  | room + 2, .object [("Tuple", .array children)] =>
      (listWithin? room children).map (.block .tuple)
  | room + 2, .object [("Array", .array children)] =>
      (listWithin? room children).map (.block .array)
  | room + 2, .object [("Vector", .array children)] =>
      (listWithin? room children).map (.block .vector)
  | room + 2, .object [("UniformArray", .array [size, child])] => do
      let size ← size.index?
      let child ← ofJsonWithin? room child
      some (uniformArray size child)
  | room + 2, .object [("UniformArray", .object members)] => do
      let size ← (Json.member? "size" members).bind Json.index?
      let child ← childWithin? room members
      some (uniformArray size child)
  | room + 2, .object [("UniformVector", .array [size, child])] => do
      let size ← size.index?
      let child ← ofJsonWithin? room child
      some (uniformVector size child)
  | room + 2, .object [("UniformVector", .object members)] => do
      let size ← (Json.member? "size" members).bind Json.index?
      let child ← childWithin? room members
      some (uniformVector size child)
  | _, _ => none

def listWithin? (room : Nat) : List Json → Option (List Descriptor)
  | [] => some []
  | item :: rest => do
      let child ← ofJsonWithin? room item
      let children ← listWithin? room rest
      some (child :: children)

/-- Reads the child of a uniform block, which occurs exactly once among its members. -/
def childWithin? (room : Nat) : List (String × Json) → Option Descriptor
  | [] => none
  | (name, item) :: rest =>
      if name = "child" then
        if rest.any (fun member => member.1 == "child") then none else ofJsonWithin? room item
      else childWithin? room rest

end

def ofJson? : Json → Option Descriptor := ofJsonWithin? Json.maxNesting

end Descriptor

end DofNumbering
