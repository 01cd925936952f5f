import StackScript.Grammar.Statement

/-!
# The grammar of JavaScript

`SyntaxTree.ofSource` reads a source text.  A source that does not follow the grammar gives a tree
with a fault node at the first token that cannot stand where it does.
-/

namespace StackScript

namespace Grammar

/-- The rule for each phrase. -/
def rules : Goal → Parser Piece
  | .statement => statement
  | .block mixed => block mixed
  | .closedBlock => closedBlock
  | .definition => definition
  | .effect => effect
  | .exportedValue => exportedValue
  | .membersLoop => membersLoop
  | .countingLoop => countingLoop
  | .expression site => expression site
  | .assignment site => assignment site
  | .binary level site => binary level site
  | .unary site => unary site
  | .constructor site => constructor site
  | .access site => access site
  | .operand site => operand site
  | .awaited site => awaited site
  | .awaiting site => Parser.either (.awaited site) (.operand site)
  | .lastAccess site => lastAccess site

/-- A first line that names an interpreter is passed over. -/
def skipInterpreter (s : Scanner) : Scanner :=
  match s.here.rest with
  | '#' :: '!' :: cs => scan s.limit (s.here.forward (2 + (cs.takeWhile (· ≠ '\n')).length))
  | _ => s

/-- A bound on the steps of reading a source, with room for texts that are read in two ways. -/
def stepLimit (source : List Char) : Nat := 1024 * (source.length + 64)

/-- Read a source, or find the token that is at fault.  No token holds a NUL character. -/
def parse (source : List Char) : Except Token SyntaxTree :=
  let start := skipInterpreter (Scanner.ofSource source)
  if source.contains '\x00' then .error start.token
  else (drive rules (stepLimit source) [] [] (script start)).map (·.tree)

/-- A tree that says only where the fault is. -/
def faultTree (size : Nat) (t : Token) : SyntaxTree :=
  .node ⟨"program", 0, size, 0, 0, true, true, false, none⟩
    [.node ⟨"ERROR", t.start.byte, t.stop.byte, t.start.row, t.start.column, true, true, false,
      none⟩ []]

end Grammar

/-- The syntax tree of a source. -/
def SyntaxTree.ofSource (source : String) : SyntaxTree :=
  match Grammar.parse source.toList with
  | .ok t => t
  | .error t => Grammar.faultTree source.utf8ByteSize t

end StackScript
