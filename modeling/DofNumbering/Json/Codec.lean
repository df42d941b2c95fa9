import DofNumbering.Json

namespace DofNumbering

/-! Values that have a JSON form.

Tuples are written as lists of their components.
-/

class Encode (α : Type) where
  encode : α → Json

export Encode (encode)

class Decode (α : Type) where
  decode? : Json → Option α

export Decode (decode?)

/-- Values that are written as several items of a list. -/
class EncodeItems (α : Type) where
  items : α → List Json

class DecodeItems (α : Type) where
  ofItems? : List Json → Option α

variable {α β : Type}

instance : Encode Json := ⟨id⟩
instance : Encode Unit := ⟨fun _ => .null⟩
instance : Encode Nat := ⟨Json.nat⟩
instance : Encode Bool := ⟨Json.bool⟩
instance : Encode String := ⟨Json.text⟩

instance [Encode α] : Encode (List α) := ⟨fun items => .array (items.map encode)⟩

instance [Encode α] : Encode (Array α) := ⟨fun items => encode items.toList⟩

/-- A value that is absent is written as null. -/
instance [Encode α] : Encode (Option α) where
  encode
    | some value => encode value
    | none => .null

instance (priority := low) [Encode α] : EncodeItems α := ⟨fun value => [encode value]⟩

instance [Encode α] [EncodeItems β] : EncodeItems (α × β) :=
  ⟨fun (first, rest) => encode first :: EncodeItems.items rest⟩

instance [EncodeItems (α × β)] : Encode (α × β) := ⟨fun value => .array (EncodeItems.items value)⟩

instance : Decode Json := ⟨some⟩
instance : Decode Nat := ⟨Json.index?⟩
instance : Decode Bool := ⟨Json.bool?⟩

instance : Decode String where
  decode?
    | .text value => some value
    | _ => none

instance [Decode α] : Decode (List α) := ⟨Json.list? decode?⟩

instance : DecodeItems Unit where
  ofItems?
    | [] => some ()
    | _ => none

instance (priority := low) [Decode α] : DecodeItems α where
  ofItems?
    | [item] => decode? item
    | _ => none

instance [Decode α] [DecodeItems β] : DecodeItems (α × β) where
  ofItems?
    | item :: rest => do
        let first ← decode? item
        let others ← DecodeItems.ofItems? rest
        some (first, others)
    | [] => none

/-- The last item of a list may be left out. -/
instance [Decode α] : DecodeItems (Option α) where
  ofItems?
    | [] => some none
    | [item] => (decode? item).map some
    | _ => none

instance [DecodeItems (α × β)] : Decode (α × β) where
  decode?
    | .array items => DecodeItems.ofItems? items
    | _ => none

namespace Json

/-- The value of a member of an object, if it can be read. -/
def field? (α : Type) [Decode α] (json : Json) (name : String) : Option α :=
  match json with
  | .object members => (member? name members).bind decode?
  | _ => none

/-- The value of a member of an object that may be absent. -/
def fieldOr? {α : Type} [Decode α] (json : Json) (name : String) (absent : α) : Option α :=
  match json with
  | .object members =>
      if members.any (fun member => member.1 == name) then json.field? α name else some absent
  | _ => none

/-- The only member of an object. -/
def onlyMember? : Json → Option (String × Json)
  | .object [member] => some member
  | _ => none

/-- A name with arguments: a list that begins with the name, or the name alone. -/
def call? : Json → Option (String × List Json)
  | .text name => some (name, [])
  | .array (.text name :: arguments) => some (name, arguments)
  | _ => none

end Json

end DofNumbering
