/-!
# Operation codes of the stack machine

An instruction is one operation word, followed by one operand word for the operations that take
an operand.  `Opcode` lists the operations, `Opcode.word` gives each its number, and
`Opcode.ofWord?` reads the number back (`Opcode.ofWord?_eq_some_iff`).
-/

namespace StackScript

/-- The operations of the stack machine. -/
inductive Opcode where
  | halt
  | const
  | add
  | sub
  | mul
  | div
  | eq
  | jump
  | jumpIfFalse
  | loadContext
  | setContext
deriving DecidableEq, Repr

namespace Opcode

/-- All operations, in the order of their numbers. -/
def all : List Opcode :=
  [halt, const, add, sub, mul, div, eq, jump, jumpIfFalse, loadContext, setContext]

/-- The number that stands for the operation in code. -/
def word : Opcode → Int
  | halt => 0
  | const => 1
  | add => 2
  | sub => 3
  | mul => 4
  | div => 5
  | eq => 6
  | jump => 7
  | jumpIfFalse => 8
  | loadContext => 9
  | setContext => 10

/-- The name used in listings, statistics and messages. -/
def name : Opcode → String
  | halt => "HALT"
  | const => "CONST"
  | add => "ADD"
  | sub => "SUB"
  | mul => "MUL"
  | div => "DIV"
  | eq => "EQ"
  | jump => "JUMP"
  | jumpIfFalse => "JUMP_IF_FALSE"
  | loadContext => "LOAD_CONTEXT"
  | setContext => "SET_CONTEXT"

/-- Number of operand words that follow the operation word. -/
def arity : Opcode → Nat
  | const | jump | jumpIfFalse | loadContext | setContext => 1
  | halt | add | sub | mul | div | eq => 0

/-- Number of words of a whole instruction. -/
def width (op : Opcode) : Nat := 1 + op.arity

/-- The jumps, whose operand is a code offset. -/
def isJump : Opcode → Bool
  | jump | jumpIfFalse => true
  | _ => false

/-- The operation with a given number. -/
def ofWord? : Int → Option Opcode
  | 0 => some halt
  | 1 => some const
  | 2 => some add
  | 3 => some sub
  | 4 => some mul
  | 5 => some div
  | 6 => some eq
  | 7 => some jump
  | 8 => some jumpIfFalse
  | 9 => some loadContext
  | 10 => some setContext
  | _ => none

/-- The operation with a given name. -/
def ofName? (s : String) : Option Opcode := all.find? (·.name == s)

theorem ofWord?_word (op : Opcode) : ofWord? op.word = some op := by
  cases op <;> rfl

theorem word_of_ofWord? {w : Int} {op : Opcode} (h : ofWord? w = some op) : op.word = w := by
  unfold ofWord? at h
  split at h <;> simp at h <;> subst h <;> rfl

/-- A word is read as an operation exactly when it is that operation's number. -/
theorem ofWord?_eq_some_iff {w : Int} {op : Opcode} : ofWord? w = some op ↔ op.word = w :=
  ⟨word_of_ofWord?, fun h => h ▸ ofWord?_word op⟩

end Opcode

end StackScript
