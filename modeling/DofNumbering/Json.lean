import DofNumbering.Index

namespace DofNumbering

/-! JSON values.

Numbers keep the way they were written, because an index is accepted only
without fraction and exponent, and objects keep the order and the repetition of
their members.
-/

/-- The number `± digits * 10 ^ exponent`; it is `whole` if it was written
without fraction and without exponent. -/
structure Json.Number where
  negative : Bool
  digits : Nat
  exponent : Int
  whole : Bool
deriving DecidableEq, Repr

inductive Json where
  | null
  | bool (value : Bool)
  | number (value : Json.Number)
  | text (value : String)
  | array (items : List Json)
  | object (members : List (String × Json))
deriving Repr

namespace Json

def Number.ofNat (value : Nat) : Number := ⟨false, value, 0, true⟩

/-- The nearest binary fraction of double precision. -/
def Number.toFloat (number : Number) : Float :=
  let magnitude := Float.ofScientific number.digits (number.exponent < 0) number.exponent.natAbs
  if number.negative then -magnitude else magnitude

def nat (value : Nat) : Json := .number (.ofNat value)

def indices (values : List Nat) : Json := .array (values.map nat)

/-- Reads an index: a number below the index limit, without sign, fraction and exponent. -/
def index? : Json → Option Nat
  | .number ⟨false, digits, _, true⟩ => if digits < Index.limit then some digits else none
  | _ => none

def bool? : Json → Option Bool
  | .bool value => some value
  | _ => none

/-- Reads a list, all of whose items can be read. -/
def list? {α : Type} (item? : Json → Option α) : Json → Option (List α)
  | .array items => items.mapM item?
  | _ => none

def indices? : Json → Option (List Nat) := list? index?

/-- The value of a member that occurs exactly once. -/
def member? (name : String) (members : List (String × Json)) : Option Json :=
  match members.filter (fun member => member.1 == name) with
  | [member] => some member.2
  | _ => none

/-- The values of a record with the given fields.  A record is an object that
has each field once, and possibly other members, or the list of all fields. -/
def fields? (names : List String) : Json → Option (List Json)
  | .object members => names.mapM (member? · members)
  | .array items => if items.length = names.length then some items else none
  | _ => none

/-- The number of lists and objects of a serialized value that may be open at one place. -/
def maxNesting : Nat := 127

/-- The case of an enumeration without content: its name, or an object with that
name, for which there has to be room. -/
def unitCase? : (room : Nat) → Json → Option String
  | _, .text name => some name
  | _ + 1, .object [(name, .null)] => some name
  | _, _ => none

theorem index?_nat {value : Nat} (bounded : value < Index.limit) :
    (nat value).index? = some value := by
  simp [nat, Number.ofNat, index?, bounded]

end Json

end DofNumbering
