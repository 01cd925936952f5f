import StackScript.Double.Shortest
import StackScript.Literal.Number

/-!
# Spelling of numbers

`Layout` holds what a format decides about a shortest decimal: which powers of ten are written out
in full, whether a whole number keeps a fraction, and how wide an exponent is.

`Double.text` is the spelling that listings show: whole numbers below `10 ^ 21` with all their
digits, others by their shortest decimal.  That one is spelled plainly first, and then brought into
the form of listings (`Double.restyle`).
-/

namespace StackScript

/-- All digits of a positive decimal, with zeros filled in on either side.  Whole numbers end in a
point and a zero if asked to. -/
def Decimal.positional (d : Decimal) (pointZero : Bool) : List Char :=
  let digits := d.digits
  let point := d.power + 1
  if point ≤ 0 then '0' :: '.' :: List.replicate (-point).toNat '0' ++ digits
  else
    let whole := point.toNat
    if digits.length ≤ whole then
      digits ++ List.replicate (whole - digits.length) '0' ++ (if pointZero then ['.', '0'] else [])
    else digits.take whole ++ '.' :: digits.drop whole

/-- One digit before the point, and the power of ten with its sign and at least so many digits. -/
def Decimal.scientific (d : Decimal) (width : Nat) : List Char :=
  let fraction := d.digits.drop 1
  let power := Nat.toDigits 10 d.power.natAbs
  d.digits.take 1 ++ (if fraction.isEmpty then [] else '.' :: fraction) ++
    'e' :: (if d.power < 0 then '-' else '+') ::
      (List.replicate (width - power.length) '0' ++ power)

/-- The choices of a number format. -/
structure Layout where
  /-- Least power of the leading digit that is written without an exponent. -/
  lowest : Int
  /-- First power of the leading digit that is written with an exponent. -/
  limit : Int
  /-- Whole numbers written without an exponent end in a point and a zero. -/
  pointZero : Bool
  /-- Least number of digits of an exponent. -/
  width : Nat

namespace Layout

/-- The spelling of a positive decimal. -/
def spell (l : Layout) (d : Decimal) : List Char :=
  if l.lowest ≤ d.power ∧ d.power < l.limit then d.positional l.pointZero else d.scientific l.width

/-- The spelling of a finite number. -/
def write (l : Layout) (negative : Bool) (a : Magnitude) : List Char :=
  (if negative then ['-'] else []) ++
    (if a = .zero then ['0', '.', '0'] else l.spell a.shortest)

end Layout

namespace Double

/-- Plainly, powers from `-4` to `15` are written in full and always with a point, and exponents have
two digits at least. -/
def plain : Layout := ⟨-4, 16, true, 2⟩

/-- The form of listings for a number that is spelled plainly.  Without an exponent it stays as it
is; powers from `-6` to `20` are written in full; other powers lose the zeros in front. -/
def restyle (cs : List Char) : List Char :=
  if 'e' ∉ cs then cs
  else
    let mantissa := cs.takeWhile (· ≠ 'e')
    let power := (Literal.signed? ((cs.dropWhile (· ≠ 'e')).drop 1)).getD 0
    if -7 < power ∧ power < 21 then
      let (negative, unsigned) := Literal.splitSign cs
      let (coeff, exponent) := (Literal.decimalParts? unsigned).getD (0, 0)
      (if negative then ['-'] else []) ++ Decimal.positional ⟨coeff, exponent⟩ false
    else mantissa ++ 'e' :: (if 0 < power then '+' else '-') :: Nat.toDigits 10 power.natAbs

/-- The spelling of a number in a listing. -/
def text (x : Double) : String :=
  match x with
  | .nan => "NaN"
  | .infinity s => if s then "-Infinity" else "Infinity"
  | .finite s a =>
    match x.toInt?.filter (fun n => n.natAbs < Nat.pow 10 21) with
    | some n => String.ofList ((if n < 0 then ['-'] else []) ++ Nat.toDigits 10 n.natAbs)
    | none => String.ofList (restyle (plain.write s a))

end Double

end StackScript
