import StackScript.CommandLine
import StackScript.Grammar

/-!
# The executable

Reads the arguments, the file and what is typed, and prints what `CommandLine` says.
-/

open StackScript StackScript.CommandLine

/-- Take lines from standard input until the session ends. -/
partial def converse (o : Options) (s : Session Unit) : IO UInt32 := do
  let stdout ← IO.getStdout
  stdout.putStr s.buffer.prompt
  stdout.flush
  let line ← (← IO.getStdin).getLine
  if line.isEmpty then
    stdout.putStr "\n"
    return 0
  match s.turn (o.sessionSettings .ofSource) (line.dropEndWhile (· == '\n')).toString with
  | .leave => return 0
  | .silent s => converse o s
  | .shown s text journal =>
    IO.eprint (logText o.verbose journal)
    stdout.putStr (text ++ "\n")
    converse o s
  | .broken _ _ journal =>
    IO.eprint (logText o.verbose journal)
    return 1

/-- Print what a run says. -/
def Printout.print (p : Printout) : IO UInt32 := do
  IO.print p.stdout
  IO.eprint p.stderr
  match p.ending with
  | .exit code => return code.toUInt32
  | .unread _ => IO.eprintln "the file cannot be read"; return 1
  | .notText => IO.eprintln "the file is not UTF-8"; return 1
  | .malformed _ | .broken _ => return 1

/-- The command. -/
def main (arguments : List String) : IO UInt32 := do
  match Request.ofArguments arguments with
  | .run o =>
    if o.repl then converse o .start
    else
      let bytes ← match o.fileName? with
        | none => pure none
        | some name => some <$> (.ok <$> IO.FS.readBinFile name <|> pure (.error .missing))
      match bytes with
      | none => Printout.print (o.printDemo .ofSource)
      | some b => Printout.print (o.printFile .ofSource b)
  | _ => Printout.print (run .ofSource arguments ⟨[]⟩ "")
