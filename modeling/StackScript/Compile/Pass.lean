import StackScript.Assembler
import StackScript.Journal
import StackScript.Pool
import StackScript.Scope
import StackScript.Script

/-!
# Compile passes

A pass builds code, constants and variables side by side and keeps a journal.  It can stop in two
ways: the script is refused (`Fault.refused`), which callers undo, or something breaks that is not
the script's fault (`Fault.broken`), which nobody undoes.  Either way the state reached is kept.
-/

namespace StackScript

/-- Settings of a pass. -/
structure Settings where
  /-- Name of the program. -/
  name : String
  /-- How deep constructs may nest. -/
  maxDepth : Int
  /-- An empty statement halts. -/
  emptyHalts : Bool

/-- The settings in use unless others are asked for. -/
def Settings.standard : Settings := ⟨"main", 200, false⟩

/-- Why a pass stops. -/
inductive Fault where
  | refused (error : CompileError)
  | broken (why : Breakdown)
deriving DecidableEq, Repr

/-- The state of a pass. -/
structure Pass (α : Type) where
  assembler : Assembler
  pool : Pool
  scope : Scope α
  journal : Array Entry

/-- Steps of a pass; the state survives a fault. -/
abbrev Build (α β : Type) := EStateM Fault (Pass α) β

namespace Pass

variable {α : Type}

/-- The pass before its first step. -/
def start (scope : Scope α) : Pass α := ⟨.empty, .empty, scope, #[]⟩

/-- Write an entry into the journal. -/
def record (p : Pass α) (e : Entry) : Pass α := { p with journal := p.journal.push e }

/-- Add an instruction and record it. -/
def emit (p : Pass α) (i : Instruction) : Pass α :=
  let entry := .emitted p.assembler.size i.opcode i.operand?.toList
  { p with assembler := p.assembler.emit i, journal := p.journal.push entry }

/-- Patch a jump to the current end and record it. -/
def patch (p : Pass α) (position : Nat) : Pass α :=
  let entry := .patched position p.assembler.size
  { p with assembler := p.assembler.patch position, journal := p.journal.push entry }

/-- Define a variable and record it. -/
def define (p : Pass α) (name : String) : Nat × Pass α :=
  let (slot, scope) := p.scope.define name none
  (slot, { p with scope := scope, journal := p.journal.push (.defined name slot) })

/-- Push a constant: find or add it in the pool, then emit. -/
def pushConstant (p : Pass α) (c : Constant) : Pass α :=
  let (index, pool) := p.pool.add c
  { p with pool := pool }.emit (.const index)

/-- The finished program, a halt added. -/
def finish (p : Pass α) (name : String) : Program × Pass α :=
  let p := p.emit .halt
  let program : Program := ⟨name, p.assembler.toList, p.pool.toList⟩
  (program, p.record (.compiled name program.code.length program.constants.length))

end Pass

namespace Build

variable {α β : Type}

/-- Refuse the script at a place. -/
def refuse (pos : Position) (cause : Cause) : Build α β := throw (.refused ⟨cause, pos⟩)

/-- Stop for another reason. -/
def breakDown (why : Breakdown) : Build α β := throw (.broken why)

/-- The text of a lexeme. -/
def read : Lexeme → Build α String
  | .ok s => pure s
  | .error why => breakDown why

/-- Add an instruction. -/
def emit (i : Instruction) : Build α Unit := modify (·.emit i)

/-- Push a constant. -/
def pushConstant (c : Constant) : Build α Unit := modify (·.pushConstant c)

/-- Add a jump with a pending target; the position of its operand. -/
def emitJump (jump : Int → Instruction) : Build α Nat :=
  modifyGet fun p => (p.assembler.size + 1, p.emit (jump pendingTarget))

/-- Let a pending jump lead to the current end. -/
def patch (position : Nat) : Build α Unit := modify (·.patch position)

/-- Define a variable; its slot. -/
def define (name : String) : Build α Nat := modifyGet (·.define name)

/-- Go one level deeper, if the settings allow it. -/
def enter (s : Settings) (depth : Nat) (pos : Position) : Build α Unit :=
  if s.maxDepth < depth + 1 then refuse pos (.tooDeep s.maxDepth) else pure ()

end Build

end StackScript
