import CallThunk.Numeral
import CallThunk.Text.Invisible
import CallThunk.Text.Combining

/-!
# Quoted text

Text between double quotes, with escapes for quotes, backslashes, control characters and characters
that are invisible or combine with the one before.
-/

namespace CallThunk.Text

/-- Whether a character stands for itself between quotes. -/
def isPlain (c : Char) : Bool :=
  if c.toNat < 0x80 then 0x20 ≤ c.toNat && c.toNat < 0x7f
  else !isInvisible c && !isCombining c

def escape (c : Char) : String :=
  if c = '"' then "\\\""
  else if c = '\\' then "\\\\"
  else if c = '\n' then "\\n"
  else if c = '\r' then "\\r"
  else if c = '\t' then "\\t"
  else if c.toNat = 0 then "\\0"
  else if isPlain c then c.toString
  else "\\u\x7b" ++ String.ofList (Nat.toDigits 16 c.toNat) ++ "\x7d"

def quoted (s : String) : String := "\"" ++ String.join (s.toList.map escape) ++ "\""

end CallThunk.Text
