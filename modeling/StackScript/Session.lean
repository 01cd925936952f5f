import StackScript.Session.LineBuffer
import StackScript.Source

/-!
# Interactive sessions

A session compiles one input after the other in a scope that they share.  Inputs that are refused
change nothing.  `Session.turn` takes one line; `Session.run` takes all that will ever be typed.
-/

namespace StackScript

/-- A compile error as users see it. -/
def CompileError.notice (e : CompileError) : String :=
  "Compile error [" ++ e.kind.name ++ "]: " ++ e.text

/-- How a session reads, compiles and shows inputs. -/
structure SessionSettings where
  parse : Parser
  compile : Settings
  showJumps : Bool

/-- What a session keeps. -/
structure Session (α : Type) where
  scope : Scope α
  programs : List Program
  buffer : LineBuffer

/-- What an input comes to. -/
structure Reply (α : Type) where
  result : Except Fault Program
  session : Session α
  journal : List Entry

/-- What a line comes to. -/
inductive Turn (α : Type) where
  /-- The session is over. -/
  | leave
  /-- Nothing to show. -/
  | silent (session : Session α)
  | shown (session : Session α) (text : String) (journal : List Entry)
  /-- The session cannot go on. -/
  | broken (session : Session α) (why : Breakdown) (journal : List Entry)

/-- What a user sees. -/
inductive Event where
  | prompt (text : String)
  | write (text : String)
deriving DecidableEq, Repr

/-- Everything that a session shows and leaves. -/
structure Transcript (α : Type) where
  events : List Event
  session : Session α
  journal : List Entry
  breakdown : Option Breakdown

namespace Session

variable {α : Type}

/-- A session at its start. -/
def start : Session α := ⟨.empty standardGlobals, [], .empty⟩

/-- The settings for the next input, which is named by its number. -/
def settings (s : Session α) (setup : SessionSettings) : Settings :=
  { setup.compile with name := s!"input_{s.programs.length}" }

/-- Compile an input. -/
def submit (s : Session α) (setup : SessionSettings) (source : String) : Reply α :=
  let outcome := compileSource setup.parse source (s.settings setup) s.scope
  let s := { s with scope := outcome.scope }
  match outcome.result with
  | .ok p => ⟨.ok p, { s with programs := s.programs ++ [p] }, outcome.journal⟩
  | .error (.refused e) => ⟨.error (.refused e), s, outcome.journal ++ [.rejected e]⟩
  | .error (.broken why) => ⟨.error (.broken why), s, outcome.journal⟩

/-- The text for a reply. -/
def answer (s : Session α) (setup : SessionSettings) : Except Fault Program → Reading String
  | .ok p => (Subject.ofProgram p s.scope setup.showJumps).readText
  | .error (.refused e) => return e.notice
  | .error (.broken why) => throw why

/-- Take a line. -/
def turn (s : Session α) (setup : SessionSettings) (line : String) : Turn α :=
  match s.buffer.feed line with
  | .quit => .leave
  | .wait b => .silent { s with buffer := b }
  | .complete source =>
    let reply := { s with buffer := .empty }.submit setup source
    match reply.session.answer setup reply.result [] with
    | .ok text found => .shown reply.session text (reply.journal ++ found.map .found)
    | .error why found => .broken reply.session why (reply.journal ++ found.map .found)

/-- Take all lines.  The end of the lines, or an interrupt in place of a line, ends the session. -/
def run (setup : SessionSettings) (s : Session α) : List (Option String) → Transcript α
  | some line :: rest =>
    let prompt := Event.prompt s.buffer.prompt
    match s.turn setup line with
    | .leave => ⟨[prompt], s, [], none⟩
    | .silent s =>
      let t := run setup s rest
      { t with events := prompt :: t.events }
    | .shown s text journal =>
      let t := run setup s rest
      { t with events := prompt :: .write text :: t.events, journal := journal ++ t.journal }
    | .broken s why journal => ⟨[prompt], s, journal, some why⟩
  | none :: _ | [] => ⟨[.prompt s.buffer.prompt, .write ""], s, [], none⟩

end Session

end StackScript
