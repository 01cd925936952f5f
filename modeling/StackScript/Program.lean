import StackScript.Constant
import StackScript.Instruction
import StackScript.Text.Column

/-!
# Programs

A program is a name, code words and constants.  `Program.verify` checks that code ends with a
halt, keeps the instruction format, and refers only to offsets and constants that exist.
`Program.opcodeCounts` counts operations, operand words apart.
-/

namespace StackScript

/-- A compiled unit. -/
structure Program where
  name : String
  code : List Int
  constants : List Constant
deriving DecidableEq

/-- The operand of a jump whose target is not known yet. -/
def pendingTarget : Int := -1

/-- How a program can be malformed. -/
inductive ProgramFault where
  | format (fault : FormatFault)
  | noFinalHalt
  | pendingJump (offset : Nat) (opcode : Opcode)
  | strayJump (offset : Nat) (opcode : Opcode) (target : Int) (length : Nat)
  | strayConstant (offset : Nat) (index : Int) (count : Nat)
deriving DecidableEq, Repr

/-- The wording of a broken instruction format. -/
def FormatFault.message : FormatFault → Except Breakdown String
  | .unknownOpcode offset word => do
    return s!"Unknown opcode {← Text.spell word} at offset {offset}"
  | .truncated offset op =>
    return s!"Truncated {op.name} at offset {offset}: needs {op.width} words, {op.width - 1} left"

/-- The wording of a malformed program. -/
def ProgramFault.message : ProgramFault → Except Breakdown String
  | format fault => fault.message
  | noFinalHalt => return "Program does not end with HALT"
  | pendingJump offset op => return s!"Unpatched {op.name} at offset {offset}"
  | strayJump offset op target length => do
    let target ← Text.spell target
    return s!"{op.name} at offset {offset} targets {target}, outside code of length {length}"
  | strayConstant offset index count => do
    let index ← Text.spell index
    return s!"CONST at offset {offset} references constant {index}, pool has {count}"

namespace Program

/-- The code read as instructions. -/
def decoded (p : Program) : Decoded := Code.decode p.code

/-- What is wrong with a jump, if anything. -/
def jumpFault? (p : Program) (offset : Nat) (op : Opcode) (target : Int) : Option ProgramFault :=
  if target = pendingTarget then some (.pendingJump offset op)
  else if 0 ≤ target ∧ target < p.code.length then none
  else some (.strayJump offset op target p.code.length)

/-- What is wrong with the operand of an instruction, if anything. -/
def operandFault? (p : Program) (l : Located) : Option ProgramFault :=
  match l.instruction with
  | .jump t => p.jumpFault? l.offset .jump t
  | .jumpIfFalse t => p.jumpFault? l.offset .jumpIfFalse t
  | .const k =>
    if 0 ≤ k ∧ k < p.constants.length then none
    else some (.strayConstant l.offset k p.constants.length)
  | _ => none

/-- The first fault of a program: the missing halt, then the instructions in order. -/
def fault? (p : Program) : Option ProgramFault :=
  if p.code.getLast? ≠ some Opcode.halt.word then some .noFinalHalt
  else (p.decoded.instructions.findSome? p.operandFault?).or (p.decoded.fault.map .format)

/-- Accept a well-formed program, or tell its first fault. -/
def verify (p : Program) : Except ProgramFault Unit :=
  match p.fault? with
  | none => .ok ()
  | some f => .error f

/-- Count one more of an operation; operations stand in the order of their first count. -/
def countOne (counts : List (Opcode × Nat)) (op : Opcode) : List (Opcode × Nat) :=
  match counts with
  | [] => [(op, 1)]
  | (o, n) :: rest => if o = op then (o, n + 1) :: rest else (o, n) :: countOne rest op

/-- How often each operation occurs. -/
def opcodeCounts (p : Program) : Except FormatFault (List (Opcode × Nat)) :=
  match p.decoded.fault with
  | some f => .error f
  | none => .ok (p.decoded.instructions.foldl (fun cs l => countOne cs l.instruction.opcode) [])

end Program

end StackScript
