import StackScript.Text.CodePoint
import StackScript.Text.Digit

/-!
# String literals

`Literal.string` gives the text that a string literal denotes.  The first and the last character
are the quotes; between them a backslash starts an escape.  Escapes name code points, so the
unescaped body is a list of code points (`Literal.unescape`), whose surrogate pairs are joined
afterwards.
-/

namespace StackScript.Literal

/-- Why a string literal has no value. -/
inductive StringFault where
  /-- A surrogate without its partner. -/
  | unpairedSurrogate
  /-- An escape names a number that is no code point. -/
  | outOfRange
  /-- An escape names a number of more than thirty-one bits. -/
  | overflow
deriving DecidableEq, Repr

/-- What an escape stands for, and how many characters after the backslash it takes. -/
structure Escape where
  /-- One code point, or nothing where a line is continued. -/
  value : Except StringFault (Option CodePoint)
  length : Nat

/-- The code point with a given number. -/
def codePoint (n : Nat) : Except StringFault (Option CodePoint) :=
  if h : n < 0x110000 then .ok (some ⟨n, h⟩)
  else if n < Nat.pow 2 31 then .error .outOfRange
  else .error .overflow

/-- The number written by hexadecimal digits. -/
def ofHex (cs : List Char) : Nat := Text.ofDigits 16 (cs.filterMap Text.hexDigit?)

/-- Characters that a backslash turns into a control character. -/
def control? : Char → Option Char
  | 'n' => some '\n'
  | 't' => some '\t'
  | 'r' => some '\r'
  | 'b' => some '\x08'
  | 'f' => some '\x0c'
  | 'v' => some '\x0b'
  | _ => none

/-- Characters that end a line. -/
def isLineEnd (c : Char) : Bool := c == '\n' || c == '\r' || c == '\u2028' || c == '\u2029'

/-- An escape of one character: nothing for a line end, a control character, or the character
itself. -/
def plainEscape (c : Char) : Escape :=
  if isLineEnd c then ⟨.ok none, 1⟩
  else ⟨.ok (some (.ofChar ((control? c).getD c))), 1⟩

/-- A braced code point, the brace being the second character of the escape. -/
def bracedEscape? (cs : List Char) : Option Escape :=
  let hs := cs.takeWhile Text.isHexDigit
  if hs.isEmpty then none
  else match cs.drop hs.length with
    | '}' :: _ => some ⟨codePoint (ofHex hs), hs.length + 3⟩
    | _ => none

/-- A code point of exactly so many hexadecimal digits, after one letter. -/
def fixedEscape? (count : Nat) (cs : List Char) : Option Escape :=
  let hs := cs.take count
  if hs.length = count ∧ hs.all Text.isHexDigit then some ⟨codePoint (ofHex hs), count + 1⟩
  else none

/-- The escape that starts right after a backslash; none at the end of the body. -/
def escape? : List Char → Option Escape
  | [] => none
  | 'u' :: '{' :: cs => (bracedEscape? cs).getD (plainEscape 'u')
  | 'u' :: cs => (fixedEscape? 4 cs).getD (plainEscape 'u')
  | 'x' :: cs => (fixedEscape? 2 cs).getD (plainEscape 'x')
  | '\r' :: '\n' :: _ => some ⟨.ok none, 2⟩
  | c :: cs =>
    if Text.isOctalDigit c then
      let ds := c :: (cs.take 2).takeWhile Text.isOctalDigit
      some ⟨codePoint (Text.ofDigits 8 (ds.filterMap Text.asciiDigit?)), ds.length⟩
    else plainEscape c

/-- The code points of a literal's body, skipping as many characters as an escape has taken. -/
def unescape : Nat → List Char → Except StringFault (List CodePoint)
  | _, [] => .ok []
  | skip + 1, _ :: cs => unescape skip cs
  | 0, c :: cs =>
    if c = '\\' then
      match escape? cs with
      | none => .ok [.ofChar c]
      | some e =>
        match e.value with
        | .error f => .error f
        | .ok p => (unescape e.length cs).map (p.toList ++ ·)
    else (unescape 0 cs).map (.ofChar c :: ·)

/-- The text between the quotes. -/
def body (text : String) : List Char := text.toList.tail.dropLast

/-- The text that a string literal denotes. -/
def string (text : String) : Except StringFault String :=
  match unescape 0 (body text) with
  | .error f => .error f
  | .ok ps =>
    match CodePoint.join? ps with
    | none => .error .unpairedSurrogate
    | some cs => .ok (String.ofList cs)

end StackScript.Literal
