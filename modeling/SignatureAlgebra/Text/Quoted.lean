/-
**Quoted text.**

A text is quoted by writing it between double quotes with some characters escaped: the quote and the
backslash, the common control characters by a letter, and every other character that has no shape of
its own (`Invisible.isInvisible`) by its number in hexadecimal.
-/
import SignatureAlgebra.Text.Invisible

namespace SignatureAlgebra.Quoted

/-- The escape that names a character by its number, such as `\u{1b}`. -/
def numbered (c : Char) : String :=
  "\\u\x7b" ++ String.ofList (Nat.toDigits 16 c.toNat) ++ "\x7d"

def escape (c : Char) : String :=
  if c = '\x00' then "\\0"
  else if c = '\t' then "\\t"
  else if c = '\r' then "\\r"
  else if c = '\n' then "\\n"
  else if c = '"' then "\\\""
  else if c = '\\' then "\\\\"
  else if Invisible.isInvisible c then numbered c
  else c.toString

def quote (text : String) : String :=
  "\"" ++ String.join (text.toList.map escape) ++ "\""

end SignatureAlgebra.Quoted
