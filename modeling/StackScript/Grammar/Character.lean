/-!
# Characters of JavaScript

Blanks come in two sorts: at a soft one a line may be broken, at a hard one it may not.  Between
tokens both are passed; a statement that needs no semicolon is only looked for behind soft ones.
-/

namespace StackScript.Grammar

/-- Blanks at which a line cannot be broken. -/
def isHardBlank (c : Char) : Bool :=
  [0xA0, 0x2007, 0x200B, 0x202F, 0x2060, 0xFEFF].contains c.toNat

/-- Blanks at which a line can be broken, ends of lines among them. -/
def isSoftBlank (c : Char) : Bool :=
  let n := c.toNat
  (0x09 ≤ n && n ≤ 0x0D) || n == 0x20 || n == 0x1680 || (0x2000 ≤ n && n ≤ 0x200A && n ≠ 0x2007) ||
    n == 0x2028 || n == 0x2029 || n == 0x205F || n == 0x3000

/-- Blanks between tokens. -/
def isBlank (c : Char) : Bool := isHardBlank c || isSoftBlank c

/-- Characters at which a statement can end without a semicolon. -/
def endsLine (c : Char) : Bool := c == '\n' || c == '\u2028' || c == '\u2029'

/-- ASCII characters that stand in no name. -/
def isPunctuation (c : Char) : Bool :=
  ":;`\"'@#.,|^&<=>+-*/\\%?!~()[]\x7b\x7d".toList.contains c

/-- Characters of a name behind the first. -/
def isNamePart (c : Char) : Bool := 0x20 ≤ c.toNat && !isBlank c && !isPunctuation c

/-- First characters of a name. -/
def isNameStart (c : Char) : Bool := isNamePart c && !c.isDigit

/-- Letters, as far as they tell `in` from a longer name. -/
def isLetter (c : Char) : Bool := c.isAlpha || (0x80 ≤ c.toNat && isNamePart c)

/-- The text starts with a character of a class. -/
def startsWith (isOne : Char → Bool) (cs : List Char) : Bool := (cs.head?.map isOne).getD false

/-! ### Comments -/

/-- The text behind a comment that ends with its line, from the end of that line on. -/
def behindLineComment (cs : List Char) : List Char :=
  cs.dropWhile fun c => !(endsLine c || c == '\r')

/-- The text behind a comment with a mark at its end, if there is that mark. -/
def behindBlockComment? : List Char → Option (List Char)
  | '*' :: '/' :: cs => some cs
  | _ :: cs => behindBlockComment? cs
  | [] => none

/-- The text behind blanks and a comment, if one follows. -/
def behindComment? (cs : List Char) : Option (List Char) :=
  match cs.dropWhile isBlank with
  | '/' :: '/' :: rest => some (behindLineComment rest)
  | '/' :: '*' :: rest => behindBlockComment? rest
  | _ => none

end StackScript.Grammar
