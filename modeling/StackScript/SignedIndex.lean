/-!
# Positions that count from either end

A position of zero or more counts from the start of a list, a negative one from its end.
-/

namespace StackScript.SignedIndex

/-- The plain index of a signed position in a list of the given size, if it has one. -/
def resolve? (size : Nat) (i : Int) : Option Nat :=
  if 0 ≤ i then
    if i < size then some i.toNat else none
  else if 0 ≤ i + size then some (i + size).toNat
  else none

/-- The signed position as a bound between zero and the size. -/
def clamp (size : Nat) (i : Int) : Nat :=
  if 0 ≤ i then min i.toNat size else (i + size).toNat

/-- The items from one signed position up to another. -/
def slice {α : Type} (xs : List α) (start stop : Int) : List α :=
  (xs.take (clamp xs.length stop)).drop (clamp xs.length start)

end StackScript.SignedIndex
