import StackScript.Text.Column
import StackScript.Text.Hidden

/-!
# Text inside messages

A text quoted in a message stands between single quotes, or double ones if it holds only single
ones.  Characters that do not show are written by number.
-/

namespace StackScript.Text

/-- A character between quotes. -/
def showChar (quote c : Char) : String :=
  if c = '\\' ∨ c = quote then "\\" ++ c.toString
  else if c = '\n' then "\\n"
  else if c = '\r' then "\\r"
  else if c = '\t' then "\\t"
  else if !isHidden c then c.toString
  else if c.toNat < 0x100 then "\\x" ++ hex 2 c.toNat
  else if c.toNat < 0x10000 then "\\u" ++ hex 4 c.toNat
  else "\\U" ++ hex 8 c.toNat

/-- A text between quotes. -/
def shown (s : String) : String :=
  let cs := s.toList
  let quote := if cs.contains '\'' && !cs.contains '"' then '"' else '\''
  quote.toString ++ String.join (cs.map (showChar quote)) ++ quote.toString

end StackScript.Text
