import Interop.Text.Hidden

/-!
# Quoted text

Text between double quotes. Quotes and backslashes in it are escaped by a backslash, some control
characters by a letter, and other hidden characters by their number.
-/

namespace Interop.Quoted

/-- The written form of one character. -/
def escape (c : Char) : String :=
  if c = '"' then "\\\""
  else if c = '\\' then "\\\\"
  else if c = '\x00' then "\\0"
  else if c = '\t' then "\\t"
  else if c = '\n' then "\\n"
  else if c = '\r' then "\\r"
  else if isHidden c then "\\u\x7b" ++ String.ofList (Nat.toDigits 16 c.toNat) ++ "\x7d"
  else String.singleton c

def quote (text : String) : String := "\"" ++ String.join (text.toList.map escape) ++ "\""

end Interop.Quoted
