/-!
# Code points and surrogates

Escapes can name any code point, surrogates included, while a `Char` is never a surrogate.
`CodePoint` is the larger alphabet.  `CodePoint.join?` joins each high surrogate with the low one
right after it and refuses a text in which a surrogate has no partner.
-/

namespace StackScript

/-- A code point, possibly a surrogate. -/
abbrev CodePoint := Fin 0x110000

namespace CodePoint

/-- The code point of a character. -/
def ofChar (c : Char) : CodePoint :=
  ⟨c.toNat, by
    have h := c.valid
    simp only [UInt32.isValidChar, Nat.isValidChar] at h
    have : c.toNat = c.val.toNat := rfl
    omega⟩

/-- First half of a surrogate pair. -/
def isHigh (p : CodePoint) : Bool := 0xD800 ≤ p.val && p.val < 0xDC00

/-- Second half of a surrogate pair. -/
def isLow (p : CodePoint) : Bool := 0xDC00 ≤ p.val && p.val < 0xE000

/-- Either half of a surrogate pair. -/
def isSurrogate (p : CodePoint) : Bool := 0xD800 ≤ p.val && p.val < 0xE000

/-- The character of a code point that is not a surrogate. -/
def toChar? (p : CodePoint) : Option Char :=
  if p.isSurrogate then none else some (Char.ofNat p.val)

/-- The character that a surrogate pair stands for. -/
def pair (high low : CodePoint) : Char :=
  Char.ofNat (0x10000 + (high.val - 0xD800) * 0x400 + (low.val - 0xDC00))

/-- The text with its surrogate pairs joined; none if a surrogate is left over. -/
def join? : List CodePoint → Option (List Char)
  | [] => some []
  | [p] => p.toChar?.map ([·])
  | p :: q :: rest =>
    if p.isHigh && q.isLow then (join? rest).map (pair p q :: ·)
    else match p.toChar? with
      | none => none
      | some c => (join? (q :: rest)).map (c :: ·)

/-- The text as it stands, if it holds no surrogate, paired or not. -/
def toChars? (ps : List CodePoint) : Option (List Char) := ps.mapM toChar?

end CodePoint

end StackScript
