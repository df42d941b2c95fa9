namespace DofNumbering.Text

/-! Texts of lists. -/

/-- The texts in order, with a separator between neighbours. -/
def separated (separator : String) : List String → String
  | [] => ""
  | [text] => text
  | text :: rest => text ++ separator ++ separated separator rest

def parenthesized (texts : List String) : String := "(" ++ separated ", " texts ++ ")"

def bracketed (texts : List String) : String := "[" ++ separated ", " texts ++ "]"

/-- A number in base sixteen, with zeros in front up to a width. -/
def hexadecimal (width value : Nat) : String :=
  let digits := Nat.toDigits 16 value
  String.ofList (List.replicate (width - digits.length) '0' ++ digits)

end DofNumbering.Text
