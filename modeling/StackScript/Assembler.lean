import StackScript.Program
import StackScript.SignedIndex

/-!
# The code buffer

Instructions are added at the end.  A jump forward is added with a pending target and patched once
its target, the end of the buffer at that time, is reached.
-/

namespace StackScript

/-- Code under construction. -/
structure Assembler where
  words : Array Int
deriving DecidableEq, Repr

/-- An operation given another number of operands than it takes. -/
structure ArityFault where
  opcode : Opcode
  given : Nat
deriving DecidableEq, Repr

/-- The wording of the fault. -/
def ArityFault.message (f : ArityFault) : String :=
  s!"{f.opcode.name} takes {f.opcode.arity} operand(s), got {f.given}"

namespace Assembler

/-- The buffer without code. -/
def empty : Assembler := ⟨#[]⟩

instance : Inhabited Assembler := ⟨empty⟩

/-- Number of words so far, which is the offset of the next instruction. -/
def size (a : Assembler) : Nat := a.words.size

/-- The code so far. -/
def toList (a : Assembler) : List Int := a.words.toList

/-- Add an instruction. -/
def emit (a : Assembler) (i : Instruction) : Assembler := ⟨a.words ++ i.words⟩

/-- Let the operand word at a position be the current end. -/
def patch (a : Assembler) (position : Nat) : Assembler :=
  ⟨a.words.setIfInBounds position a.size⟩

/-- Patch the word at a signed position; none if there is no such word. -/
def patchAt? (a : Assembler) (position : Int) : Option Assembler :=
  (SignedIndex.resolve? a.size position).map a.patch

/-- Drop the words from a position on. -/
def truncate (a : Assembler) (size : Nat) : Assembler := ⟨a.words.take size⟩

end Assembler

end StackScript
