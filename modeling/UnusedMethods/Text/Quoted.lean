import UnusedMethods.Text.Hidden

/-!
# Quoted text

Messages that quote a piece of input write it between double quotes. Quotes, backslashes and line
breaks are escaped, and so is every character that would not show.
-/

namespace UnusedMethods.Text

/-- The escaped form of a character inside quotes. -/
def escapeChar (c : Char) : String :=
  if c == '"' then "\\\""
  else if c == '\\' then "\\\\"
  else if c == '\n' then "\\n"
  else if c == '\r' then "\\r"
  else if c == '\t' then "\\t"
  else if c.toNat == 0 then "\\0"
  else if isHidden c then
    "\\u\x7b" ++ String.ofList (Nat.toDigits 16 c.toNat) ++ "\x7d"
  else c.toString

def quoted (text : String) : String :=
  "\"" ++ String.join (text.toList.map escapeChar) ++ "\""

end UnusedMethods.Text
