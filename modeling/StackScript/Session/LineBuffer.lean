import StackScript.Text.Blank

/-!
# Lines of an interactive input

An input ends with the first line that leaves no brace open.  Braces are counted line by line;
those inside string literals do not count.
-/

namespace StackScript

/-! ### Braces -/

/-- Where a count of braces stands: in a literal closed by a quote, perhaps right behind a
backslash, or outside. -/
inductive BraceMode where
  | outside
  | quoted (quote : Char)
  | escaped (quote : Char)
deriving DecidableEq, Repr

/-- Opening minus closing braces, from a mode on. -/
def braceBalanceFrom : BraceMode → List Char → Int
  | _, [] => 0
  | .escaped q, _ :: cs => braceBalanceFrom (.quoted q) cs
  | .quoted q, c :: cs =>
    if c = '\\' then braceBalanceFrom (.escaped q) cs
    else if c = q then braceBalanceFrom .outside cs
    else braceBalanceFrom (.quoted q) cs
  | .outside, c :: cs =>
    if c = '\'' ∨ c = '"' then braceBalanceFrom (.quoted c) cs
    else if c = '{' then 1 + braceBalanceFrom .outside cs
    else if c = '}' then -1 + braceBalanceFrom .outside cs
    else braceBalanceFrom .outside cs

/-- Opening minus closing braces of a line, those in string literals apart. -/
def braceBalance (line : String) : Int := braceBalanceFrom .outside line.toList

/-! ### Collecting lines -/

/-- Lines of an input that is not complete yet. -/
structure LineBuffer where
  /-- The lines, the latest first. -/
  lines : List String
  /-- Braces left open. -/
  depth : Int
deriving DecidableEq, Repr

/-- What a line leads to. -/
inductive LineEffect where
  /-- The session ends. -/
  | quit
  /-- More lines are needed. -/
  | wait (buffer : LineBuffer)
  /-- An input is complete. -/
  | complete (source : String)
deriving DecidableEq, Repr

namespace LineBuffer

/-- No lines. -/
def empty : LineBuffer := ⟨[], 0⟩

/-- Words that end a session. -/
def quitWords : List String := [":q", ":quit", "quit", "exit"]

/-- What is shown before a line is read. -/
def prompt (b : LineBuffer) : String := if b.lines.isEmpty then "js> " else "... "

/-- Take a line.  Blank lines before an input and words that end the session are not part of it. -/
def feed (b : LineBuffer) (line : String) : LineEffect :=
  let bare := String.ofList (Text.trim line.toList)
  if b.lines.isEmpty && quitWords.contains bare then .quit
  else if b.lines.isEmpty && bare.isEmpty then .wait b
  else
    let lines := line :: b.lines
    let depth := b.depth + braceBalance line
    if 0 < depth then .wait ⟨lines, depth⟩
    else .complete (String.join (lines.reverse.map (· ++ "\n")))

end LineBuffer

end StackScript
