import DofNumbering.Json

namespace DofNumbering.Json

/-! Writing JSON text, without blanks. -/

def Number.text (number : Number) : String :=
  (if number.negative then "-" else "") ++ toString number.digits ++
    (if number.exponent = 0 then "" else "e" ++ toString number.exponent)

def hexChar (digit : Nat) : Char :=
  if digit < 10 then Char.ofNat ('0'.toNat + digit) else Char.ofNat ('a'.toNat + (digit - 10))

def escape (char : Char) : List Char :=
  if char = '"' then ['\\', '"']
  else if char = '\\' then ['\\', '\\']
  else if char.toNat < 0x20 then
    ['\\', 'u', '0', '0', hexChar (char.toNat / 16), hexChar (char.toNat % 16)]
  else [char]

def quote (text : String) : String :=
  "\"" ++ String.ofList (text.toList.flatMap escape) ++ "\""

mutual

/-- Writes a value behind a text. -/
def writeOnto (done : String) : Json → String
  | .null => done ++ "null"
  | .bool value => done ++ (if value then "true" else "false")
  | .number value => done ++ value.text
  | .text value => done ++ quote value
  | .array [] => done ++ "[]"
  | .array (item :: rest) => writeItems (item.writeOnto (done ++ "[")) rest ++ "]"
  | .object [] => done ++ "\x7b\x7d"
  | .object ((name, value) :: rest) =>
      writeMembers (value.writeOnto (done ++ "\x7b" ++ quote name ++ ":")) rest ++ "\x7d"

def writeItems (done : String) : List Json → String
  | [] => done
  | item :: rest => writeItems (item.writeOnto (done ++ ",")) rest

def writeMembers (done : String) : List (String × Json) → String
  | [] => done
  | (name, value) :: rest =>
      writeMembers (value.writeOnto (done ++ "," ++ quote name ++ ":")) rest

end

def write (value : Json) : String := value.writeOnto ""

end DofNumbering.Json
