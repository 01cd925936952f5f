import Std.Data.HashMap
import StackScript.Constant
import StackScript.SignedIndex

/-!
# The constant pool

A pool numbers constants in the order in which they are first added.  Numbers and texts already
present are found again through a table from keys to indices; truth values and not-a-number are
always added anew.
-/

namespace StackScript

/-- What a constant is looked up by: its kind and value, zero without its sign. -/
inductive PoolKey where
  | number (x : Double)
  | string (s : String)
deriving DecidableEq

instance : Hashable Double := ⟨fun x => hash x.toBits⟩

instance : Hashable PoolKey where
  hash
    | .number x => mixHash 1 (hash x)
    | .string s => mixHash 2 (hash s)

/-- The key of a constant; none for constants that are never shared. -/
def Constant.key? : Constant → Option PoolKey
  | .number x => if x.isNaN then none else some (.number x.normalize)
  | .boolean _ => none
  | .string s => some (.string s)

/-- A constant pool. -/
structure Pool where
  /-- The constants by index. -/
  values : Array Constant
  /-- Where a key was first added. -/
  table : Std.HashMap PoolKey Nat

namespace Pool

/-- The pool without constants. -/
def empty : Pool := ⟨#[], ∅⟩

instance : Inhabited Pool := ⟨empty⟩

/-- Number of constants. -/
def size (p : Pool) : Nat := p.values.size

/-- The constants by index, as a list. -/
def toList (p : Pool) : List Constant := p.values.toList

/-- The index of a constant, added at the end if it is not found. -/
def add (p : Pool) (c : Constant) : Nat × Pool :=
  match c.key? with
  | none => (p.size, { p with values := p.values.push c })
  | some k =>
    match p.table[k]? with
    | some i => (i, p)
    | none => (p.size, ⟨p.values.push c, p.table.insert k p.size⟩)

/-- Keep the constants before a signed position, and of the table what points below it. -/
def truncate (p : Pool) (size : Int) : Pool :=
  ⟨p.values.take (SignedIndex.clamp p.size size), p.table.filter fun _ i => (i : Int) < size⟩

end Pool

end StackScript
