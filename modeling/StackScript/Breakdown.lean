/-!
# Breakdowns

What keeps a tree, a text or a code from being read to its end, as opposed to what a script is
refused for.
-/

namespace StackScript

/-- Faults that are not refusals of a script. -/
inductive Breakdown where
  /-- A node has no child where one is needed. -/
  | noChild
  /-- A node lacks one of its parts. -/
  | noPart
  /-- The bytes of a node are not UTF-8. -/
  | notText
  /-- An escape names a number beyond thirty-one bits. -/
  | hugeEscape
  /-- There is no word at a position. -/
  | noWord
  /-- A number has too many digits for a message. -/
  | longNumeral
deriving DecidableEq, Repr

end StackScript
