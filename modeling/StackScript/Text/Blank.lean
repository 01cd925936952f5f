/-!
# White space

`isWhiteSpace` is the Unicode property of that name.  `isBlank` holds besides of the separators of
files, groups, records and units.  Text is trimmed by either.
-/

namespace StackScript.Text

/-- White space: the ASCII blanks, next line, and the Unicode separators. -/
def isWhiteSpace (c : Char) : Bool :=
  let n := c.toNat
  (0x09 ≤ n && n ≤ 0x0D) || n == 0x20 || n == 0x85 || n == 0xA0 || n == 0x1680 ||
    (0x2000 ≤ n && n ≤ 0x200A) || n == 0x2028 || n == 0x2029 || n == 0x202F || n == 0x205F ||
    n == 0x3000

/-- White space, and the ASCII separators of files, groups, records and units. -/
def isBlank (c : Char) : Bool := isWhiteSpace c || (0x1C ≤ c.toNat && c.toNat ≤ 0x1F)

/-- Drop characters of a class at the end. -/
def trimEndBy (isOne : Char → Bool) (cs : List Char) : List Char :=
  (cs.reverse.dropWhile isOne).reverse

/-- Drop characters of a class at both ends. -/
def trimBy (isOne : Char → Bool) (cs : List Char) : List Char :=
  trimEndBy isOne (cs.dropWhile isOne)

/-- Drop blanks at the end. -/
def trimRight (cs : List Char) : List Char := trimEndBy isBlank cs

/-- Drop blanks at both ends. -/
def trim (cs : List Char) : List Char := trimBy isBlank cs

/-- Every character that the core library calls white space is white space here. -/
theorem isBlank_of_isWhitespace {c : Char} (h : c.isWhitespace = true) : isBlank c = true := by
  simp only [Char.isWhitespace, Bool.or_eq_true, decide_eq_true_eq] at h
  rcases h with ((h | h) | h) | h <;> subst h <;> rfl

end StackScript.Text
