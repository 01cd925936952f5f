import StackScript.Opcode

/-!
# Instructions and the instruction format

`Instruction` pairs each operation with the operand it needs, so that no instruction lacks one.
`Instruction.words` writes an instruction as code words, `Code.decode` reads a whole code back
into located instructions, up to the end or to the first word that breaks the format.
-/

namespace StackScript

/-- One instruction; operands are constant indices, code offsets or variable slots. -/
inductive Instruction where
  | halt
  | const (index : Int)
  | add
  | sub
  | mul
  | div
  | eq
  | jump (target : Int)
  | jumpIfFalse (target : Int)
  | loadContext (slot : Int)
  | setContext (slot : Int)
deriving DecidableEq, Repr

namespace Instruction

/-- The operation of an instruction. -/
def opcode : Instruction → Opcode
  | halt => .halt
  | const _ => .const
  | add => .add
  | sub => .sub
  | mul => .mul
  | div => .div
  | eq => .eq
  | jump _ => .jump
  | jumpIfFalse _ => .jumpIfFalse
  | loadContext _ => .loadContext
  | setContext _ => .setContext

/-- The operand of an instruction, if its operation takes one. -/
def operand? : Instruction → Option Int
  | const x | jump x | jumpIfFalse x | loadContext x | setContext x => some x
  | halt | add | sub | mul | div | eq => none

/-- The code words of an instruction. -/
def words (i : Instruction) : List Int := i.opcode.word :: i.operand?.toList

/-- Number of code words of an instruction. -/
def width (i : Instruction) : Nat := i.opcode.width

end Instruction

/-- What an operation still needs to become an instruction. -/
inductive Opcode.Form where
  /-- Nothing: the operation stands alone. -/
  | bare (i : Instruction)
  /-- One operand word. -/
  | withOperand (f : Int → Instruction)

/-- The instructions that start with a given operation word. -/
def Opcode.form : Opcode → Opcode.Form
  | .halt => .bare .halt
  | .const => .withOperand .const
  | .add => .bare .add
  | .sub => .bare .sub
  | .mul => .bare .mul
  | .div => .bare .div
  | .eq => .bare .eq
  | .jump => .withOperand .jump
  | .jumpIfFalse => .withOperand .jumpIfFalse
  | .loadContext => .withOperand .loadContext
  | .setContext => .withOperand .setContext

/-- An instruction together with the offset of its first word. -/
structure Located where
  offset : Nat
  instruction : Instruction
deriving DecidableEq, Repr

/-- How code can break the instruction format. -/
inductive FormatFault where
  /-- A word where an instruction should start is the number of no operation. -/
  | unknownOpcode (offset : Nat) (word : Int)
  /-- The code ends before the operand of its last instruction. -/
  | truncated (offset : Nat) (opcode : Opcode)
deriving DecidableEq, Repr

/-- The result of reading code: the instructions before the first fault, and that fault. -/
structure Decoded where
  instructions : List Located
  fault : Option FormatFault
deriving DecidableEq, Repr

namespace Code

/-- Read code whose first word stands at the given offset. -/
def decodeFrom (offset : Nat) : List Int → Decoded
  | [] => ⟨[], none⟩
  | w :: rest =>
    match Opcode.ofWord? w with
    | none => ⟨[], some (.unknownOpcode offset w)⟩
    | some op =>
      match op.form with
      | .bare i =>
        let tail := decodeFrom (offset + 1) rest
        ⟨⟨offset, i⟩ :: tail.instructions, tail.fault⟩
      | .withOperand f =>
        match rest with
        | [] => ⟨[], some (.truncated offset op)⟩
        | x :: rest =>
          let tail := decodeFrom (offset + 2) rest
          ⟨⟨offset, f x⟩ :: tail.instructions, tail.fault⟩

/-- Read a whole code. -/
def decode (code : List Int) : Decoded := decodeFrom 0 code

/-- Write instructions one after the other. -/
def encode (is : List Instruction) : List Int := is.flatMap Instruction.words

end Code

end StackScript
