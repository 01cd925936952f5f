import StackScript.Text.Digit
import StackScript.Text.Shown

/-!
# Arguments of the command line

Arguments are switches and at most one file.  A switch may be spelled by any beginning of its long
form that no other switch shares, and short forms may be joined behind one dash.
`Request.ofArguments` says what arguments ask for.
-/

namespace StackScript.CommandLine

/-! ### Switches -/

/-- What a user can ask for besides a file. -/
inductive Switch where
  | help
  | json
  | stats
  | repl
  | legacyEmptyHalt
  | legacyJumpDecoding
  | verbose
deriving DecidableEq, Repr

namespace Switch

/-- The spellings of a switch, in the order in which messages show them. -/
def spellings : Switch → List String
  | help => ["-h", "--help"]
  | json => ["--json"]
  | stats => ["--stats"]
  | repl => ["--repl"]
  | legacyEmptyHalt => ["--legacy-empty-halt"]
  | legacyJumpDecoding => ["--legacy-jump-decoding"]
  | verbose => ["--verbose", "-v"]

/-- All switches. -/
def all : List Switch :=
  [help, json, stats, repl, legacyEmptyHalt, legacyJumpDecoding, verbose]

/-- All spellings with their switches. -/
def table : List (String × Switch) :=
  all.flatMap fun s => s.spellings.map fun name => (name, s)

/-- The switch of a spelling. -/
def ofName? (name : String) : Option Switch := table.lookup name

/-- The switch as a message shows it. -/
def title (s : Switch) : String := String.intercalate "/" s.spellings

end Switch

/-! ### Faults -/

/-- Why arguments are not understood. -/
inductive UsageFault where
  | unrecognized (arguments : List String)
  | ambiguous (argument : String) (candidates : List String)
  /-- A value is given to a switch that takes none. -/
  | needless (switch : Switch) (value : String)
deriving DecidableEq, Repr

/-- The wording of a fault. -/
def UsageFault.message : UsageFault → String
  | unrecognized arguments => "unrecognized arguments: " ++ String.intercalate " " arguments
  | ambiguous argument candidates =>
    "ambiguous option: " ++ argument ++ " could match " ++ String.intercalate ", " candidates
  | needless switch value =>
    "argument " ++ switch.title ++ ": ignored explicit argument " ++ Text.shown value

/-! ### Single arguments -/

/-- What an argument is by its form. -/
inductive Argument where
  | word (text : String)
  /-- Two dashes; what follows is not a switch. -/
  | divider
  /-- A spelled-out switch, perhaps with a value. -/
  | switch (switch : Switch) (value : Option String)
  /-- Short switches behind one dash, the first one known; then what follows it, an equals sign
  apart. -/
  | joined (switch : Switch) (rest : List Char)
  /-- Looks like a switch and is none. -/
  | unknown (text : String)
deriving DecidableEq, Repr

/-- A text cut at its first equals sign. -/
def cutValue (cs : List Char) : List Char × Option (List Char) :=
  (cs.takeWhile (· ≠ '='), (cs.dropWhile (· ≠ '=')).tail?)

/-- A negative number, perhaps with a line end behind it: an argument like that is a word. -/
def isNegativeNumber : List Char → Bool
  | '-' :: cs =>
    let isDigit (c : Char) : Bool := (Text.decimalDigit? c).isSome
    let cs := if cs.getLast? = some '\n' then cs.dropLast else cs
    match cs.dropWhile isDigit with
    | [] => !cs.isEmpty
    | '.' :: ds => !ds.isEmpty && ds.all isDigit
    | _ => false
  | _ => false

/-- An argument that starts with a dash and spells no switch in full. -/
def inexactArgument (text : String) : Except UsageFault Argument :=
  let cs := text.toList
  let (name, value) := cutValue cs
  let value := value.map String.ofList
  match cs with
  | '-' :: '-' :: _ =>
    match Switch.table.filter fun (spelling, _) => name.isPrefixOf spelling.toList with
    | [(_, s)] => .ok (.switch s value)
    | [] => .ok (if cs.contains ' ' then .word text else .unknown text)
    | candidates => .error (.ambiguous text (candidates.map Prod.fst))
  | _ =>
    match Switch.ofName? (String.ofList (cs.take 2)) with
    | some s => .ok (.joined s (cs.drop 2))
    | none =>
      .ok (if isNegativeNumber cs || cs.contains ' ' then .word text else .unknown text)

/-- What an argument is by its form. -/
def Argument.ofText (text : String) : Except UsageFault Argument :=
  let cs := text.toList
  if text = "--" then .ok .divider
  else if cs.head? ≠ some '-' ∨ cs.length = 1 then .ok (.word text)
  else
    match Switch.ofName? text, cutValue cs with
    | some s, _ => .ok (.switch s none)
    | none, (name, some value) =>
      match Switch.ofName? (String.ofList name) with
      | some s =>
        .ok (if name.length = 2 ∧ value ≠ [] then .joined s value
          else .switch s (some (String.ofList value)))
      | none => inexactArgument text
    | none, _ => inexactArgument text

/-- The form of each argument; behind a divider all are words. -/
def classify : List String → Except UsageFault (List Argument)
  | [] => .ok []
  | text :: rest => do
    match ← Argument.ofText text with
    | .divider => return .divider :: rest.map .word
    | a => return a :: (← classify rest)

/-! ### All arguments -/

/-- What to do. -/
structure Options where
  file : Option String := none
  json : Bool := false
  stats : Bool := false
  repl : Bool := false
  emptyHalts : Bool := false
  showJumps : Bool := true
  verbose : Bool := false
deriving DecidableEq, Repr

/-- Turn a switch on. -/
def Options.turnOn (o : Options) : Switch → Options
  | .help => o
  | .json => { o with json := true }
  | .stats => { o with stats := true }
  | .repl => { o with repl := true }
  | .legacyEmptyHalt => { o with emptyHalts := true }
  | .legacyJumpDecoding => { o with showJumps := false }
  | .verbose => { o with verbose := true }

/-- What the arguments ask for. -/
inductive Request where
  | run (options : Options)
  | help
  | misuse (fault : UsageFault)
deriving DecidableEq, Repr

/-- Short switches behind one dash.  What is no switch is taken for a value of the one before. -/
def splitJoined (s : Switch) : List Char → Except UsageFault (List Switch)
  | [] => .ok [s]
  | c :: cs =>
    match Switch.ofName? (String.ofList ['-', c]) with
    | none => .error (.needless s (String.ofList (c :: cs)))
    | some next => (splitJoined next cs).map (s :: ·)

/-- What has been understood so far. -/
structure Progress where
  options : Options := {}
  /-- The place for a file is taken. -/
  placed : Bool := false
  /-- What is not understood, the latest first. -/
  extras : List String := []

/-- Put a word where it belongs: the first is the file. -/
def Progress.word (p : Progress) (text : String) : Progress :=
  if p.placed then { p with extras := text :: p.extras }
  else { p with options := { p.options with file := some text }, placed := true }

/-- Go through the arguments in order. -/
def understand (p : Progress) : List Argument → Request
  | [] =>
    if p.extras.isEmpty then .run p.options else .misuse (.unrecognized p.extras.reverse)
  | .word text :: .divider :: rest =>
    if p.placed then
      understand { p with extras := "--" :: text :: p.extras } rest
    else understand (p.word text) rest
  | .word text :: rest => understand (p.word text) rest
  | .divider :: rest =>
    understand (if p.placed then { p with extras := "--" :: p.extras } else p) rest
  | .unknown text :: rest => understand { p with extras := text :: p.extras } rest
  | .switch s (some value) :: _ => .misuse (.needless s value)
  | .switch s none :: rest =>
    if s = .help then .help else understand { p with options := p.options.turnOn s } rest
  | .joined s cs :: rest =>
    match splitJoined s cs with
    | .error fault => .misuse fault
    | .ok switches =>
      if switches.contains .help then .help
      else understand { p with options := switches.foldl Options.turnOn p.options } rest

/-- What the arguments ask for.  An ambiguous argument is a fault before anything else is done. -/
def Request.ofArguments (arguments : List String) : Request :=
  match classify arguments with
  | .error fault => .misuse fault
  | .ok items => understand {} items

end StackScript.CommandLine
