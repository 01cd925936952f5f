import StackScript.CommandLine.Options
import StackScript.CommandLine.Directory
import StackScript.Session
import StackScript.Text.Lines

/-!
# The command line

`CommandLine.run` is the whole command as a function: from the arguments, the files and what is
typed to what is printed and how the run ends.
-/

namespace StackScript.CommandLine

/-- How the command is called. -/
def usage : String :=
  "usage: jsbytecode [-h] [--json] [--stats] [--repl] [--legacy-empty-halt]\n" ++
  "                  [--legacy-jump-decoding] [--verbose]\n" ++
  "                  [file]\n"

/-- What the command does, and its switches. -/
def helpText : String :=
  usage ++
  "\nCompile a JavaScript subset to stack-VM bytecode and disassemble it\n" ++
  "\npositional arguments:\n" ++
  "  file                  Source file to compile\n" ++
  "\noptions:\n" ++
  "  -h, --help            show this help message and exit\n" ++
  "  --json                Print the compiled program as JSON\n" ++
  "  --stats               Print opcode frequency counts\n" ++
  "  --repl                Start an interactive compile session\n" ++
  "  --legacy-empty-halt   Emit HALT for empty statements\n" ++
  "  --legacy-jump-decoding\n" ++
  "                        Report JUMP / JUMP_IF_FALSE as unknown opcodes when\n" ++
  "                        disassembling\n" ++
  "  --verbose, -v         Enable debug logging\n"

/-- What is compiled if no file is given. -/
def demoSource : String :=
  "let x = 5;\nif (x === 5) \x7b\n  x + 1;\n\x7d else \x7b\n  \"other\";\n\x7d\n"

/-- How a run ends. -/
inductive Ending where
  | exit (code : Nat)
  /-- There is no file to read. -/
  | unread (fault : PathFault)
  /-- The file is not UTF-8. -/
  | notText
  /-- The code of the program cannot be read. -/
  | malformed (fault : FormatFault)
  | broken (why : Breakdown)
deriving DecidableEq, Repr

/-- What a run prints, and how it ends. -/
structure Printout where
  stdout : String
  stderr : String
  ending : Ending
deriving DecidableEq, Repr

/-- The lines of a log.  Unless all entries are wanted, only warnings are kept. -/
def logText (verbose : Bool) (journal : List Entry) : String :=
  let kept := journal.filter fun e => verbose || e.level = .warning
  String.join (kept.map fun e => e.line ++ "\n")

/-- A message about wrong use. -/
def UsageFault.report (f : UsageFault) : String := usage ++ "jsbytecode: error: " ++ f.message ++ "\n"

/-- Text of a file. -/
def readSource (bytes : ByteArray) : Option String :=
  (String.fromUTF8? bytes).map fun s => String.ofList (Text.unifyLineEnds s.toList)

namespace Options

/-- Settings for the compiler. -/
def settings (o : Options) : Settings := { Settings.standard with emptyHalts := o.emptyHalts }

/-- Settings for an interactive session. -/
def sessionSettings (o : Options) (parse : Parser) : SessionSettings :=
  ⟨parse, o.settings, o.showJumps⟩

/-- What is shown of a program.  Showing it may end the run. -/
def present (o : Options) (p : Program) (scope : Scope Unit) :
    EStateM Ending (List String) String :=
  if o.json then return p.toJson.write .indented
  else if o.stats then
    match p.opcodeCounts with
    | .ok counts => return (Program.countsToJson counts).write .indented
    | .error fault => throw (.malformed fault)
  else (Subject.ofProgram p scope o.showJumps).readText.adaptExcept .broken

variable (parse : Parser)

/-- Compile a source and print what is asked for; `before` is printed already. -/
def printSource (o : Options) (before source : String) : Printout :=
  let outcome := compileSource parse source o.settings (.empty standardGlobals : Scope Unit)
  let log := logText o.verbose
  match outcome.result with
  | .ok p =>
    match o.present p outcome.scope [] with
    | .ok text found =>
      ⟨before ++ text ++ "\n", log (outcome.journal ++ found.map .found), .exit 0⟩
    | .error ending found => ⟨before, log (outcome.journal ++ found.map .found), ending⟩
  | .error (.refused e) => ⟨before, log outcome.journal ++ e.notice ++ "\n", .exit 1⟩
  | .error (.broken why) => ⟨before, log outcome.journal, .broken why⟩

/-- Announce and print the built-in source. -/
def printDemo (o : Options) : Printout :=
  o.printSource parse ("No file provided. Using built-in demo:\n\n" ++ demoSource ++ "\n") demoSource

/-- Print a file, if there is one. -/
def printFile (o : Options) : Except PathFault ByteArray → Printout
  | .error fault => ⟨"", "", .unread fault⟩
  | .ok bytes =>
    match readSource bytes with
    | none => ⟨"", "", .notText⟩
    | some source => o.printSource parse "" source

/-- The file to compile; an empty name counts as none. -/
def fileName? (o : Options) : Option String := o.file.filter (· ≠ "")

end Options

/-- What a user sees, as it is printed. -/
def Event.printed : Event → String
  | .prompt text => text
  | .write text => text ++ "\n"

variable (parse : Parser)

/-- A whole interactive session. -/
def interact (o : Options) (typed : String) : Printout :=
  let t := (Session.start : Session Unit).run (o.sessionSettings parse) ((Text.lines typed).map some)
  ⟨String.join (t.events.map Event.printed), logText o.verbose t.journal,
    match t.breakdown with
    | some why => .broken why
    | none => .exit 0⟩

/-- The whole command. -/
def run (arguments : List String) (files : Directory) (typed : String) : Printout :=
  match Request.ofArguments arguments with
  | .help => ⟨helpText, "", .exit 0⟩
  | .misuse fault => ⟨"", UsageFault.report fault, .exit 2⟩
  | .run o =>
    if o.repl then interact parse o typed
    else
      match o.fileName? with
      | none => o.printDemo parse
      | some name => o.printFile parse (files.read name)

end StackScript.CommandLine
