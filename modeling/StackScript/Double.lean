/-!
# Double-precision numbers

`Double` is the set of numbers a constant can hold: the finite binary64 values, the two
infinities and one not-a-number.  A finite value is a sign with a `Magnitude`, an integer
multiple of `2 ^ -1074` in canonical form, so that equality of `Double`s tells the two zeros
apart and nothing else that is equal as a number.

`Double.ofRatio` rounds an exact quotient to the nearest value, a tie to the even mantissa, and
everything that reads a number goes through it.
-/

namespace StackScript

/-- A finite binary64 magnitude, standing for `mant * 2 ^ exp / 2 ^ 1074`. -/
structure Magnitude where
  mant : Nat
  exp : Nat
  /-- Either the value is below the smallest full-precision one, or the mantissa has 53 bits. -/
  canonical : mant < Nat.pow 2 53 ∧ exp ≤ 2045 ∧ (exp = 0 ∨ Nat.pow 2 52 ≤ mant)
deriving DecidableEq

namespace Magnitude

/-- Zero. -/
def zero : Magnitude := ⟨0, 0, by decide⟩

/-- The magnitude as a multiple of `2 ^ -1074`. -/
def units (a : Magnitude) : Nat := a.mant * Nat.pow 2 a.exp

end Magnitude

/-- A double-precision number. -/
inductive Double where
  | nan
  | infinity (negative : Bool)
  | finite (negative : Bool) (magnitude : Magnitude)
deriving DecidableEq

/-- The integer nearest to `num / den`, a tie going to the even one. -/
def roundHalfEven (num den : Nat) : Nat :=
  let q := num / den
  let r := num % den
  if 2 * r < den then q
  else if den < 2 * r then q + 1
  else if q % 2 = 0 then q
  else q + 1

namespace Double

instance : Inhabited Double := ⟨.nan⟩

/-- Zero, with a sign. -/
def zero (negative : Bool) : Double := .finite negative .zero

/-- The value with a given mantissa and exponent; what does not fit the format is infinite. -/
def pack (negative : Bool) (mant exp : Nat) : Double :=
  if h : mant < Nat.pow 2 53 ∧ exp ≤ 2045 ∧ (exp = 0 ∨ Nat.pow 2 52 ≤ mant) then
    .finite negative ⟨mant, exp, h⟩
  else
    .infinity negative

/-- The double nearest to `num / den`, a tie going to the even mantissa.  Quotients too large
for the format become infinite. -/
def ofRatio (negative : Bool) (num den : Nat) : Double :=
  let scaled := num * Nat.pow 2 1074
  let exp := (scaled / den).log2 - 52
  let mant := roundHalfEven scaled (den * Nat.pow 2 exp)
  -- rounding up can carry into the next power of two
  if mant = Nat.pow 2 53 then pack negative (Nat.pow 2 52) (exp + 1) else pack negative mant exp

/-- The double nearest to an integer. -/
def ofInt (n : Int) : Double := ofRatio (n < 0) n.natAbs 1

/-- A number, if it is finite. -/
def finite? : Double → Option Double
  | .finite s a => some (.finite s a)
  | _ => none

/-- The double nearest to an integer, if that is finite. -/
def ofInt? (n : Int) : Option Double := (ofInt n).finite?

/-- The double nearest to `coeff * 10 ^ exponent`.  Powers of ten that settle the result alone
are not computed. -/
def ofDecimal (negative : Bool) (coeff : Nat) (exponent : Int) : Double :=
  if coeff = 0 then zero negative
  else if 400 ≤ exponent then .infinity negative
  else if 0 ≤ exponent then ofRatio negative (coeff * Nat.pow 10 exponent.toNat) 1
  else
    let places := (-exponent).toNat
    -- `10 ^ places` exceeds `8 ^ places`, which pushes the value below half the least unit
    if coeff.log2 + 1076 ≤ 3 * places then zero negative
    else ofRatio negative coeff (Nat.pow 10 places)

/-! ### Equality as numbers -/

/-- Equality as numbers: the zeros agree, and not-a-number differs from everything. -/
def numEq : Double → Double → Bool
  | .finite s a, .finite t b => a == b && (s == t || a == .zero)
  | .infinity s, .infinity t => s == t
  | _, _ => false

/-- The representative of a number among those equal to it: zero loses its sign. -/
def normalize : Double → Double
  | .finite s a => if a = .zero then zero false else .finite s a
  | x => x

/-- Not-a-number. -/
def isNaN : Double → Bool
  | .nan => true
  | _ => false

/-- The value, when it is an integer. -/
def toInt? : Double → Option Int
  | .finite s a =>
    if a.units % Nat.pow 2 1074 = 0 then
      let n : Int := (a.units / Nat.pow 2 1074 : Nat)
      some (if s then -n else n)
    else none
  | _ => none

/-! ### Binary interchange format -/

/-- The 64 bits of a value: sign, eleven bits of exponent, fifty-two of fraction. -/
def toBits : Double → Nat
  | .nan => 0x7ff8000000000000
  | .infinity s => (if s then Nat.pow 2 63 else 0) + 0x7ff0000000000000
  | .finite s a =>
    (if s then Nat.pow 2 63 else 0) +
      (if a.mant < Nat.pow 2 52 then a.mant else a.exp * Nat.pow 2 52 + a.mant)

/-- The value with given 64 bits. -/
def ofBits (bits : Nat) : Double :=
  let negative := bits / Nat.pow 2 63 % 2 = 1
  let exp := bits / Nat.pow 2 52 % Nat.pow 2 11
  let fraction := bits % Nat.pow 2 52
  if exp = Nat.pow 2 11 - 1 then
    if fraction = 0 then .infinity negative else .nan
  else if exp = 0 then pack negative fraction 0
  else pack negative (Nat.pow 2 52 + fraction) (exp - 1)

end Double

end StackScript
