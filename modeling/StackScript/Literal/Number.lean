import StackScript.Double
import StackScript.Text.Blank
import StackScript.Text.Digit

/-!
# Number literals

`Literal.number?` gives the value of the text of a number literal: hexadecimal, octal and binary
integers behind their marks, octal integers behind a plain zero, and decimal numbers.  Every value
is the exact number rounded once (`ofInteger`, `Double.ofDecimal`).

Separators are dropped beforehand, wherever they stand.  Digits of every script count as decimal
digits, and blanks around the digits are allowed.
-/

namespace StackScript.Literal

/-- A numeric text in ASCII: digits of other scripts become ASCII digits, blanks spaces, and every
other character a question mark, which no number holds. -/
def toAscii (c : Char) : Char :=
  if c.toNat < 127 then c
  else if Text.isBlank c then ' '
  else match Text.decimalDigit? c with
    | some d => Nat.digitChar d
    | none => '?'

/-- Blanks that may surround the digits of a numeric text. -/
def isMargin (c : Char) : Bool := c == ' ' || ('\t' ≤ c && c ≤ '\r')

/-- The numeric text between its margins, in ASCII. -/
def core (cs : List Char) : List Char :=
  (((cs.map toAscii).dropWhile isMargin).reverse.dropWhile isMargin).reverse

/-- Split off a sign; true for minus. -/
def splitSign : List Char → Bool × List Char
  | '-' :: rest => (true, rest)
  | '+' :: rest => (false, rest)
  | cs => (false, cs)

/-- The digits of a base, if the text is nothing else and not empty. -/
def digits? (base : Nat) (cs : List Char) : Option (List Nat) :=
  if cs.isEmpty then none else cs.mapM (Text.radixDigit? base)

/-- Drop the mark of a base, `0` and its letter. -/
def dropMark (letter : Char) : List Char → List Char
  | '0' :: m :: rest => if m.toLower = letter then rest else '0' :: m :: rest
  | cs => cs

/-- A signed integer of a base, which may carry the mark of that base once more. -/
def integer? (base : Nat) (letter : Char) (cs : List Char) : Option Int := do
  let (negative, rest) := splitSign (core cs)
  let ds ← digits? base (dropMark letter rest)
  let n : Int := Text.ofDigits base ds
  return if negative then -n else n

/-- A signed integer in ASCII digits. -/
def signed? (cs : List Char) : Option Int := do
  let (negative, rest) := splitSign cs
  let n : Int := Text.ofDigits 10 (← digits? 10 rest)
  return if negative then -n else n

/-- The exponent part of a decimal number: absent, or a letter with a signed integer. -/
def exponent? : List Char → Option Int
  | [] => some 0
  | e :: rest => if e = 'e' ∨ e = 'E' then signed? rest else none

/-- Split off a point with the digits behind it. -/
def splitFraction : List Char → Option (List Char) × List Char
  | '.' :: rest => (some (rest.takeWhile Char.isDigit), rest.dropWhile Char.isDigit)
  | cs => (none, cs)

/-- An unsigned decimal number as coefficient and power of ten. -/
def decimalParts? (cs : List Char) : Option (Nat × Int) := do
  let whole := cs.takeWhile Char.isDigit
  let (fraction, rest) := splitFraction (cs.dropWhile Char.isDigit)
  let ds ← digits? 10 (whole ++ fraction.getD [])
  let exponent ← exponent? rest
  return (Text.ofDigits 10 ds, exponent - (fraction.getD []).length)

/-- A signed decimal number, an infinity or not-a-number by name. -/
def decimal? (cs : List Char) : Option Double :=
  let (negative, rest) := splitSign (core cs)
  let word := rest.map Char.toLower
  if word = "inf".toList ∨ word = "infinity".toList then some (.infinity negative)
  else if word = "nan".toList then some .nan
  else (decimalParts? rest).map fun (coeff, exponent) => .ofDecimal negative coeff exponent

/-- The double nearest to an integer.  Integers beyond all doubles become positive infinity,
whatever their sign. -/
def ofInteger (n : Int) : Double := (Double.ofInt? n).getD (.infinity false)

/-- The value of a number literal, separators dropped. -/
def number?OfChars (cs : List Char) : Option Double :=
  let marked (base : Nat) (letter : Char) (rest : List Char) :=
    (integer? base letter rest).map ofInteger
  match cs with
  | '0' :: m :: rest =>
    if m = 'x' ∨ m = 'X' then marked 16 'x' rest
    else if m = 'o' ∨ m = 'O' then marked 8 'o' rest
    else if m = 'b' ∨ m = 'B' then marked 2 'b' rest
    else if cs.all Text.isOctalDigit then marked 8 'o' cs
    else decimal? cs
  | cs => decimal? cs

/-- The value of the text of a number literal. -/
def number? (text : String) : Option Double :=
  number?OfChars (text.toList.filter (· ≠ '_'))

/-- Literals of unbounded integers end in `n`. -/
def isBigint (text : String) : Bool := text.toList.getLast? == some 'n'

end StackScript.Literal
