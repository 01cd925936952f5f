import StackScript.Breakdown

/-!
# Numbers and cells of a table

Fixed-width cells: integers padded with zeros behind the sign, and text padded with blanks.
Messages spell integers in decimal, unless they have too many digits (`Text.spell`).
-/

namespace StackScript.Text

/-- Fill up with blanks on the right to a width. -/
def padRight (width : Nat) (s : String) : String :=
  s ++ String.ofList (List.replicate (width - s.length) ' ')

/-- A signed number from its digits, with zeros between sign and digits up to a width; the sign
counts. -/
def signed (width : Nat) (negative : Bool) (digits : List Char) : String :=
  let sign := if negative then ['-'] else []
  let zeros := List.replicate (width - sign.length - digits.length) '0'
  String.ofList (sign ++ zeros ++ digits)

/-- An integer in decimal, padded with zeros. -/
def decimal (width : Nat) (n : Int) : String :=
  signed width (n < 0) (Nat.toDigits 10 n.natAbs)

/-- An integer in lower-case hexadecimal, padded with zeros. -/
def hex (width : Nat) (n : Int) : String :=
  signed width (n < 0) (Nat.toDigits 16 n.natAbs)

/-- How many digits an integer may have to be spelled in a message. -/
def maxDigits : Nat := 4300

/-- An integer is short enough to be spelled in a message. -/
def Spellable (n : Int) : Prop := (Nat.toDigits 10 n.natAbs).length ≤ maxDigits

instance : DecidablePred Spellable := fun _ => inferInstanceAs (Decidable (_ ≤ _))

/-- The spelling of an integer in a message. -/
def spell (n : Int) : Except Breakdown String :=
  if Spellable n then .ok (toString n) else .error .longNumeral

end StackScript.Text
