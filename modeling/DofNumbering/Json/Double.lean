import DofNumbering.Json.Codec
import DofNumbering.Json.Reader
import DofNumbering.Text

namespace DofNumbering.Json

/-! Numbers in double precision, given by their bits.

A number is written as the hexadecimal digits of its bits, so that nothing is
lost; the two zeros have one form, and so have all values that are no numbers.
Decimal numbers can be read as well.
-/

def doubleText (value : Float) : String :=
  if value.isNaN then "nan" else "0x" ++ Text.hexadecimal 16 (value + 0.0).toBits.toNat

def double? : Json → Option Float
  | .number value => some value.toFloat
  | .text content =>
      match content.toList with
      | '0' :: 'x' :: digits =>
          (hexValue? digits).map (fun bits => Float.ofBits (UInt64.ofNat bits))
      | _ => none
  | _ => none

instance : Encode Float := ⟨fun value => .text (doubleText value)⟩
instance : Decode Float := ⟨double?⟩

end DofNumbering.Json
