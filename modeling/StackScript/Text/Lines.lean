/-!
# Lines

Line ends of text files in one form, and texts taken apart at them.
-/

namespace StackScript.Text

/-- Write every line end as a line feed: also a carriage return, alone or with a line feed. -/
def unifyLineEnds : List Char → List Char
  | '\r' :: '\n' :: cs => '\n' :: unifyLineEnds cs
  | '\r' :: cs => '\n' :: unifyLineEnds cs
  | c :: cs => c :: unifyLineEnds cs
  | [] => []

/-- The lines of a text, from the characters of the current one on, the latest first.  A text that
ends with a line feed has no line behind it. -/
def linesFrom (current : List Char) : List Char → List String
  | [] => if current.isEmpty then [] else [String.ofList current.reverse]
  | c :: cs =>
    if c = '\n' then String.ofList current.reverse :: linesFrom [] cs
    else linesFrom (c :: current) cs

/-- The lines of a text. -/
def lines (s : String) : List String := linesFrom [] s.toList

end StackScript.Text
