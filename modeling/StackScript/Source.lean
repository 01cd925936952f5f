import StackScript.Compile
import StackScript.Listing
import StackScript.Program.Json

/-!
# From source text to results

The ways from a source text to a program, and on to what is shown of it: a listing, a JSON
document, or counts of operations.  The parser can be any.
-/

namespace StackScript

/-- A way to read source texts as syntax trees. -/
abbrev Parser := String → SyntaxTree

variable {α : Type} (parse : Parser)

/-- The script of a source text. -/
def Script.ofSource (source : String) : Script := .ofTree source.toUTF8 (parse source)

/-- Compile a source text in a scope. -/
def compileSource (source : String) (s : Settings) (scope : Scope α) :
    Outcome α (Except Fault Program) :=
  let outcome := (Script.ofSource parse source).compile s scope
  { outcome with journal := .compiling source.length :: outcome.journal }

/-- Compile the statements of a source text that can be compiled. -/
def compileSourceEach (source : String) (s : Settings) (scope : Scope α) :
    Outcome α (Except Breakdown Report) :=
  (Script.ofSource parse source).compileEach s scope

/-- Compile a source text in a scope of its own. -/
def compileAlone (source : String) (s : Settings) : Outcome Unit (Except Fault Program) :=
  compileSource parse source s (.empty standardGlobals)

/-- The lines of a listing of a source text. -/
def listSource (source : String) (s : Settings) (showJumps : Bool) : Except Fault (List String) :=
  let outcome := compileAlone parse source s
  match outcome.result with
  | .ok p =>
    match (Subject.ofProgram p outcome.scope showJumps).readLines [] with
    | .ok lines _ => .ok lines
    | .error why _ => .error (.broken why)
  | .error f => .error f

/-- The program of a source text as an indented document. -/
def dumpSource (source : String) (s : Settings) : Except Fault String :=
  (compileAlone parse source s).result.map fun p => p.toJson.write .indented

/-- The operation counts of a source text, and whatever is wrong with its program. -/
def countSource (source : String) (s : Settings) :
    Except Fault (Except FormatFault (List (Opcode × Nat))) :=
  (compileAlone parse source s).result.map Program.opcodeCounts

end StackScript
