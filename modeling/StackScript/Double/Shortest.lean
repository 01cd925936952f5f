import StackScript.Double

/-!
# The fewest digits that read back

A finite nonzero magnitude has many decimal spellings that round to it.  `Magnitude.shortest`
picks one with the fewest significant digits, and of those the nearest to the value; when two are
equally near, the even one.  The search is exact: for each digit count it looks at the two
neighbours of the value on the decimal grid of that precision and keeps those that
`Double.ofDecimal` takes back to the value.
-/

namespace StackScript

/-- The decimal `coeff * 10 ^ exponent`. -/
structure Decimal where
  coeff : Nat
  exponent : Int
deriving DecidableEq, Repr

namespace Decimal

/-- Number of decimal digits of a natural number; zero has one. -/
def digitCount (n : Nat) : Nat := (Nat.toDigits 10 n).length

/-- Drop trailing zeros of the coefficient. -/
def trim (coeff : Nat) (exponent : Int) : Decimal :=
  if h : coeff ≠ 0 ∧ coeff % 10 = 0 then trim (coeff / 10) (exponent + 1)
  else ⟨coeff, exponent⟩
termination_by coeff
decreasing_by exact Nat.div_lt_self (Nat.pos_of_ne_zero h.1) (by decide)

/-- Decimal exponent of the leading digit: `d.ddd * 10 ^ power`. -/
def power (d : Decimal) : Int := digitCount d.coeff + d.exponent - 1

/-- The digits of the coefficient. -/
def digits (d : Decimal) : List Char := Nat.toDigits 10 d.coeff

end Decimal

namespace Magnitude

/-- The decimal reads back as the magnitude. -/
def readBy (a : Magnitude) (coeff : Nat) (exponent : Int) : Bool :=
  Double.ofDecimal false coeff exponent == .finite false a

/-- The value over `10 ^ exponent`, as a quotient of integers. -/
def quotientBy (a : Magnitude) (exponent : Int) : Nat × Nat :=
  if 0 ≤ exponent then (a.units, Nat.pow 2 1074 * Nat.pow 10 exponent.toNat)
  else (a.units * Nat.pow 10 (-exponent).toNat, Nat.pow 2 1074)

/-- Position of the decimal point: the value lies in `[10 ^ (p - 1), 10 ^ p)`. -/
def pointPosition (a : Magnitude) : Int :=
  Decimal.digitCount (a.units * Nat.pow 10 330 / Nat.pow 2 1074) - 330

/-- The better neighbour of the value on the grid `10 ^ exponent`, if one reads back. -/
def nearestOn? (a : Magnitude) (exponent : Int) : Option Nat :=
  let (num, den) := a.quotientBy exponent
  let low := num / den
  match a.readBy low exponent, a.readBy (low + 1) exponent with
  | true, true => some (roundHalfEven num den)
  | true, false => some low
  | false, true => some (low + 1)
  | false, false => none

/-- The first decimal that reads back, with one digit, two digits and so on.  Seventeen digits always
suffice; past them stands the exact value. -/
def firstReadBack (a : Magnitude) : Nat × Int :=
  let p := a.pointPosition
  let found := (List.range' 1 17).findSome? fun (k : Nat) =>
    (a.nearestOn? (p - k)).map fun coeff => (coeff, p - k)
  found.getD (a.units * Nat.pow 5 1074, -1074)

/-- The shortest decimal that reads back, nearest to the value among the shortest. -/
def shortest (a : Magnitude) : Decimal :=
  let first := a.firstReadBack
  Decimal.trim first.1 first.2

end Magnitude

end StackScript
