import Std.Data.TreeMap
import StackScript.SignedIndex

/-!
# Scopes

A scope gives variables their slots.  Every definition takes a fresh slot, also of a name that is
already defined; the name then means its latest slot, while the earlier slot keeps its name.
Slots carry an optional initial value of any type the host likes, in a table of their own.

`Scope.checkpoint` and `Scope.rollback` undo definitions.
-/

namespace StackScript

/-- Names that scripts may expect to be defined by their surroundings. -/
def standardGlobals : List String :=
  ["globalThis", "undefined", "NaN", "Infinity", "console", "Object", "Function", "Array",
   "String", "Number", "Boolean", "Symbol", "BigInt", "Math", "JSON", "Date", "RegExp", "Error",
   "TypeError", "RangeError", "SyntaxError", "ReferenceError", "Promise", "Map", "Set",
   "WeakMap", "WeakSet", "Reflect", "Proxy", "parseInt", "parseFloat", "isNaN", "isFinite",
   "eval"]

/-- The variables of a session. -/
structure Scope (α : Type) where
  /-- Names known to the surroundings. -/
  globals : List String
  /-- The names by slot. -/
  slotNames : Array String
  /-- The initial values by slot. -/
  initials : Array (Option α)
  /-- The slot that each name means. -/
  bindings : Std.TreeMap String Nat

/-- A point to return to. -/
structure Checkpoint where
  slotCount : Nat
  bindings : Std.TreeMap String Nat

namespace Scope

variable {α : Type}

/-- The scope without variables. -/
def empty (globals : List String) : Scope α := ⟨globals, #[], #[], ∅⟩

instance : Inhabited (Scope α) := ⟨empty standardGlobals⟩

/-- Number of slots. -/
def slotCount (s : Scope α) : Nat := s.slotNames.size

/-- Names by slot. -/
def names (s : Scope α) : List String := s.slotNames.toList

/-- Define a name; its slot is the next free one. -/
def define (s : Scope α) (name : String) (initial : Option α) : Nat × Scope α :=
  (s.slotCount,
    { s with
      slotNames := s.slotNames.push name
      initials := s.initials.push initial
      bindings := s.bindings.insert name s.slotCount })

/-- Define names one after the other. -/
def defineAll (s : Scope α) (names : List String) : Scope α :=
  names.foldl (fun s name => (s.define name none).2) s

/-- The slot that a name means. -/
def slot? (s : Scope α) (name : String) : Option Nat := s.bindings[name]?

/-- The name is known to the surroundings. -/
def isGlobal (s : Scope α) (name : String) : Bool := s.globals.contains name

/-- The name of a slot. -/
def name? (s : Scope α) (slot : Int) : Option String :=
  if 0 ≤ slot then s.slotNames[slot.toNat]? else none

/-- The initial value at a signed position; none if there is no value there. -/
def initial? (s : Scope α) (slot : Int) : Option (Option α) := do
  let i ← SignedIndex.resolve? s.initials.size slot
  s.initials[i]?

/-- The state to return to later. -/
def checkpoint (s : Scope α) : Checkpoint := ⟨s.slotCount, s.bindings⟩

/-- Forget the slots defined since a checkpoint, and let names mean what they meant there. -/
def rollback (s : Scope α) (c : Checkpoint) : Scope α :=
  { s with
    slotNames := s.slotNames.take c.slotCount
    initials := s.initials.take c.slotCount
    bindings := c.bindings }

end Scope

end StackScript
