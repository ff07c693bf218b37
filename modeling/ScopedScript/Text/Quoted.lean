/-
**Quoted texts.**

Messages show a text between double quotes. Inside, a quote and a backslash follow a backslash, the
usual controls have letters, and every other hidden character is written by its number in lower-case
hexadecimal digits:

* `Text.escape`: how one character stands in a quoted text;
* `Text.quoted`: the whole quoted text.
-/

import ScopedScript.Text.Hidden

namespace ScopedScript.Text

def escape (char : Char) : String :=
  if char = '"' then "\\\""
  else if char = '\\' then "\\\\"
  else if char = '\n' then "\\n"
  else if char = '\r' then "\\r"
  else if char = '\t' then "\\t"
  else if char = Char.ofNat 0 then "\\0"
  else if isHidden char then
    "\\u\x7b" ++ String.ofList (Nat.toDigits 16 char.toNat) ++ "\x7d"
  else char.toString

/-- A text between double quotes, its characters escaped. -/
def quoted (text : String) : String :=
  "\"" ++ String.join (text.toList.map escape) ++ "\""

end ScopedScript.Text
