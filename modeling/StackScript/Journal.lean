import StackScript.CompileError
import StackScript.Opcode
import StackScript.Text.Column

/-!
# The journal

What compilation and listing do is recorded as a list of entries.  An entry knows how important it
is, which part of the program wrote it, and its wording.
-/

namespace StackScript

/-- Importance of an entry, in rising order. -/
inductive Level where
  | debug
  | info
  | warning
deriving DecidableEq, Repr

namespace Level

/-- The word in front of an entry. -/
def name : Level → String
  | debug => "DEBUG"
  | info => "INFO"
  | warning => "WARNING"

end Level

/-- Something that happened. -/
inductive Entry where
  /-- A source of so many characters is about to be compiled. -/
  | compiling (characters : Nat)
  | defined (name : String) (slot : Nat)
  | emitted (offset : Nat) (opcode : Opcode) (operands : List Int)
  | patched (position target : Nat)
  | compiled (name : String) (words constants : Nat)
  | failed (name : String) (error : CompileError)
  /-- A statement was left out. -/
  | skipped (error : CompileError)
  /-- An interactive input was refused. -/
  | rejected (error : CompileError)
  /-- A finding of a listing. -/
  | found (report : String)
deriving DecidableEq, Repr

namespace Entry

/-- The importance of an entry. -/
def level : Entry → Level
  | compiling _ | compiled .. | failed .. => .info
  | defined .. | emitted .. | patched .. | rejected _ => .debug
  | skipped _ | found _ => .warning

/-- The part of the program that writes an entry. -/
def origin : Entry → String
  | compiling _ => "jsbytecode.api"
  | defined .. => "jsbytecode.context"
  | emitted .. | patched .. | compiled .. | failed .. | skipped _ => "jsbytecode.compiler"
  | rejected _ => "jsbytecode.repl"
  | found _ => "jsbytecode.disassembler"

/-- The wording of an entry. -/
def message : Entry → String
  | compiling n => s!"Compiling source ({n} bytes)"
  | defined name slot => s!"Defined {name} at slot {slot}"
  | emitted offset op operands =>
    let list := String.intercalate ", " (operands.map (Text.decimal 0))
    Text.decimal 4 offset ++ " " ++ op.name ++ " [" ++ list ++ "]"
  | patched position target => s!"Patched operand {position} -> {target}"
  | compiled name words constants => s!"Compiled {name}: {words} words, {constants} constants"
  | failed name error => s!"Compilation of {name} failed: {error.text}"
  | skipped error => s!"Skipping statement: {error.text}"
  | rejected error => s!"Rejected input: {error.text}"
  | found report => s!"[Disassemble] {report}"

/-- The line of an entry in a log. -/
def line (e : Entry) : String := e.level.name ++ " " ++ e.origin ++ ": " ++ e.message

end Entry

end StackScript
