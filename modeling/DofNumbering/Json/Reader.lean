import DofNumbering.Json

namespace DofNumbering.Json

/-! Reading JSON text.

Every reader takes the characters that are left and returns a value with the
characters after it.  Items and members are collected with the last one first.
-/

def isBlank (char : Char) : Bool :=
  char == ' ' || char == '\t' || char == '\n' || char == '\r'

def skipBlanks (input : List Char) : List Char := input.dropWhile isBlank

def digitsValue (digits : List Char) : Nat :=
  digits.foldl (fun value digit => 10 * value + (digit.toNat - '0'.toNat)) 0

def readSign : List Char → Bool × List Char
  | '-' :: rest => (true, rest)
  | '+' :: rest => (false, rest)
  | rest => (false, rest)

/-- The exponent at the head of the input, or zero; the flag tells whether there is one. -/
def readExponent : List Char → Option (Int × Bool × List Char)
  | 'e' :: rest | 'E' :: rest =>
      let (negative, rest) := readSign rest
      let digits := rest.takeWhile Char.isDigit
      if digits.isEmpty then none
      else
        let value : Int := digitsValue digits
        some (if negative then -value else value, true, rest.dropWhile Char.isDigit)
  | rest => some (0, false, rest)

/-- The digits after the decimal point at the head of the input; the flag tells
whether there is a point. -/
def readFraction : List Char → Option (List Char × Bool × List Char)
  | '.' :: rest =>
      let digits := rest.takeWhile Char.isDigit
      if digits.isEmpty then none else some (digits, true, rest.dropWhile Char.isDigit)
  | rest => some ([], false, rest)

def readNumber (input : List Char) : Option (Number × List Char) := do
  let (negative, rest) := match input with
    | '-' :: rest => (true, rest)
    | rest => (false, rest)
  let digits := rest.takeWhile Char.isDigit
  if digits.isEmpty || (digits.length > 1 && digits.head? == some '0') then none
  else
    let (fraction, pointed, rest) ← readFraction (rest.dropWhile Char.isDigit)
    let (exponent, scaled, rest) ← readExponent rest
    some (⟨negative, digitsValue (digits ++ fraction), exponent - fraction.length,
      !pointed && !scaled⟩, rest)

def hexDigit? (char : Char) : Option Nat :=
  if char.isDigit then some (char.toNat - '0'.toNat)
  else if 'a' ≤ char ∧ char ≤ 'f' then some (char.toNat - 'a'.toNat + 10)
  else if 'A' ≤ char ∧ char ≤ 'F' then some (char.toNat - 'A'.toNat + 10)
  else none

def hexValue? (digits : List Char) : Option Nat :=
  digits.foldlM (fun value digit => (hexDigit? digit).map (16 * value + ·)) 0

def escaped? : Char → Option Nat
  | '"' => some 0x22
  | '\\' => some 0x5c
  | '/' => some 0x2f
  | 'b' => some 0x08
  | 'f' => some 0x0c
  | 'n' => some 0x0a
  | 'r' => some 0x0d
  | 't' => some 0x09
  | _ => none

/-- The code units of a text up to its closing quote. -/
def readUnits : List Char → Option (List Nat × List Char)
  | [] => none
  | '"' :: rest => some ([], rest)
  | '\\' :: 'u' :: a :: b :: c :: d :: rest => do
      let unit ← hexValue? [a, b, c, d]
      let (units, rest) ← readUnits rest
      some (unit :: units, rest)
  | '\\' :: char :: rest => do
      let unit ← escaped? char
      let (units, rest) ← readUnits rest
      some (unit :: units, rest)
  | char :: rest =>
      if char.toNat < 0x20 then none
      else do
        let (units, rest) ← readUnits rest
        some (char.toNat :: units, rest)

/-- Joins the two halves of a surrogate pair; a half alone is refused. -/
def joinSurrogates : List Nat → Option (List Char)
  | [] => some []
  | unit :: rest =>
      if 0xd800 ≤ unit ∧ unit < 0xdc00 then
        match rest with
        | low :: rest =>
            if 0xdc00 ≤ low ∧ low < 0xe000 then
              (joinSurrogates rest).map
                (Char.ofNat (0x10000 + (unit - 0xd800) * 0x400 + (low - 0xdc00)) :: ·)
            else none
        | [] => none
      else if 0xdc00 ≤ unit ∧ unit < 0xe000 then none
      else (joinSurrogates rest).map (Char.ofNat unit :: ·)

def readText (input : List Char) : Option (String × List Char) := do
  let (units, rest) ← readUnits input
  let chars ← joinSurrogates units
  some (String.ofList chars, rest)

mutual

def readValue : Nat → List Char → Option (Json × List Char)
  | 0, _ => none
  | depth + 1, input =>
      match skipBlanks input with
      | 'n' :: 'u' :: 'l' :: 'l' :: rest => some (.null, rest)
      | 't' :: 'r' :: 'u' :: 'e' :: rest => some (.bool true, rest)
      | 'f' :: 'a' :: 'l' :: 's' :: 'e' :: rest => some (.bool false, rest)
      | '"' :: rest => do
          let (value, rest) ← readText rest
          some (.text value, rest)
      | '[' :: rest =>
          match skipBlanks rest with
          | ']' :: rest => some (.array [], rest)
          | rest => do
              let (items, rest) ← readItems depth [] rest
              some (.array items, rest)
      | '{' :: rest =>
          match skipBlanks rest with
          | '}' :: rest => some (.object [], rest)
          | rest => do
              let (members, rest) ← readMembers depth [] rest
              some (.object members, rest)
      | rest => do
          let (value, rest) ← readNumber rest
          some (.number value, rest)

/-- Reads the items of a list up to its end, behind the ones read before. -/
def readItems : Nat → List Json → List Char → Option (List Json × List Char)
  | 0, _, _ => none
  | depth + 1, items, input => do
      let (item, rest) ← readValue depth input
      match skipBlanks rest with
      | ']' :: rest => some ((item :: items).reverse, rest)
      | ',' :: rest => readItems depth (item :: items) rest
      | _ => none

/-- Reads the members of an object up to its end, behind the ones read before. -/
def readMembers : Nat → List (String × Json) → List Char →
    Option (List (String × Json) × List Char)
  | 0, _, _ => none
  | depth + 1, members, input => do
      match skipBlanks input with
      | '"' :: rest => do
          let (name, rest) ← readText rest
          match skipBlanks rest with
          | ':' :: rest => do
              let (value, rest) ← readValue depth rest
              match skipBlanks rest with
              | '}' :: rest => some (((name, value) :: members).reverse, rest)
              | ',' :: rest => readMembers depth ((name, value) :: members) rest
              | _ => none
          | _ => none
      | _ => none

end

/-- Reads a text that holds one value.  Every step of the readers consumes a
character, so twice the length of the text bounds their depth. -/
def parse? (text : String) : Option Json :=
  let input := text.toList
  match readValue (2 * input.length + 2) input with
  | some (value, rest) => if (skipBlanks rest).isEmpty then some value else none
  | none => none

end DofNumbering.Json
