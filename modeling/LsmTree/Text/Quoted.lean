import LsmTree.Text.Invisible

/-!
# Text/Quoted — text in double quotes

`Quoted.encode` puts a text in double quotes so that it fits on one line and can be told from every
other: quotes and backslashes are escaped, and so is every character that does not show as itself,
by a letter where it has one and by its number in lower-case hexadecimal otherwise.
-/

namespace LsmTree.Text.Quoted

/-- How one character is written between the quotes. -/
def escape (c : Char) : String :=
  if c = '"' then "\\\""
  else if c = '\\' then "\\\\"
  else if c = '\t' then "\\t"
  else if c = '\n' then "\\n"
  else if c = '\r' then "\\r"
  else if c.toNat = 0 then "\\0"
  else if isInvisible c then "\\u\x7b" ++ String.ofList (Nat.toDigits 16 c.toNat) ++ "\x7d"
  else c.toString

/-- The text in double quotes. -/
def encode (text : String) : String :=
  "\"" ++ String.join (text.toList.map escape) ++ "\""

end LsmTree.Text.Quoted
