import CallThunk.Value.Basic
import CallThunk.Ty.Printer
import CallThunk.Ieee.Shortest

/-!
# Text of values

A pointer shows its type and its address, an aggregate its name and its bytes; floats are never
written with an exponent.
-/

namespace CallThunk.Value

def text : Value → String
  | void => "(void)"
  | bool b => if b then "true" else "false"
  | int kind bits => Numeral.signed (intValue kind bits)
  | float kind bits => kind.format.positional bits.toNat
  | pointer pointee address =>
    "(" ++ (Ty.pointer pointee).text ++ ") " ++ Numeral.hex address.toNat
  | aggregate record bytes =>
    record.name ++ " \x7b" ++ String.intercalate " " (bytes.map Numeral.hexByte) ++ "\x7d"

end CallThunk.Value
