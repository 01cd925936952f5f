import StackScript.SyntaxTree
import StackScript.Grammar.Token

/-!
# Grammar rules

A `Parser` reads tokens and may wait for a phrase of the grammar (`Goal`).  It does not call the
rule for that phrase: it hands out what to do with the phrase, and `drive` keeps what is to be
done in a list.  So the depth of a source costs no stack, and every rule is a plain function that
no other rule needs to be defined with.

Some texts can only be judged by what follows.  `[a, b]` is an array or, before `=`, a pattern: rules
return a `Piece`, which says besides its tree what it could also be.  `{a: b}` is an object or a
block: a parser may name two phrases to read, and the second is read if the first, or what comes
behind it in the same statement, cannot be.
-/

namespace StackScript.Grammar

/-- Where an expression stands. -/
structure Site where
  /-- The word `in` joins two operands. -/
  joinsIn : Bool := true
  /-- A statement can end behind the expression. -/
  ending : Bool := false

/-- In brackets, where `in` joins two operands and no statement ends. -/
def Site.inside : Site := {}

/-- At the end of a statement. -/
def Site.tail : Site := { ending := true }

/-- Phrases that rules wait for. -/
inductive Goal where
  | statement
  /-- Statements in braces, perhaps where a value could stand as well. -/
  | block (mixed : Bool)
  /-- Statements in braces, with no joint behind them. -/
  | closedBlock
  /-- A function or class with a name, and with no joint behind it. -/
  | definition
  /-- An expression for its effect. -/
  | effect
  /-- A value that a module hands out. -/
  | exportedValue
  /-- A loop over the members of a value. -/
  | membersLoop
  /-- A loop with a test. -/
  | countingLoop
  /-- Expressions with commas between them. -/
  | expression (site : Site)
  | assignment (site : Site)
  /-- Operators that bind at least as tightly as a level. -/
  | binary (level : Nat) (site : Site)
  | unary (site : Site)
  /-- What `new` is applied to. -/
  | constructor (site : Site)
  /-- A value with accesses and calls behind it. -/
  | access (site : Site)
  /-- A value with accesses, calls, updates and an assignment behind it. -/
  | operand (site : Site)
  /-- The word `await` with an operand. -/
  | awaited (site : Site)
  /-- The word `await` with an operand, or as a name. -/
  | awaiting (site : Site)
  /-- A call or an access at the very end of the source. -/
  | lastAccess (site : Site)

/-- Behind such a phrase its other readings are of no interest. -/
def Goal.settles : Goal → Bool
  | statement => true
  | _ => false

/-- What can be done with an expression right away. -/
inductive Footing where
  /-- It can be accessed, called, and called with a template. -/
  | primary
  /-- It can be accessed, called, and called with a template, but not called if present. -/
  | construction
  /-- It can be accessed and called. -/
  | compound
deriving DecidableEq

/-- What an expression can also be. -/
structure Cover where
  /-- The left side of an assignment that reads its target. -/
  augmentable : Bool := false
  /-- The left side of an assignment. -/
  assignable : Bool := false
  /-- A pattern. -/
  pattern : Bool := false
  /-- A pattern, perhaps with a default. -/
  element : Bool := false
  /-- The parameters of an arrow function. -/
  parameters : Bool := false
  /-- The word `async`, which marks a function if parameters and an arrow follow. -/
  marksFunction : Bool := false
  /-- It is not an expression, only one of the other things. -/
  pending : Bool := false
  footing : Footing := .primary

namespace Cover

/-- Only an expression. -/
def expression : Cover := {}

/-- A part of an object. -/
def part : Cover := { augmentable := true, assignable := true, pattern := true, element := true }

/-- A name. -/
def name : Cover := { part with parameters := true }

end Cover

/-- A phrase that was read. -/
structure Piece where
  tree : SyntaxTree
  cover : Cover := .expression

/-- What a parser comes to. -/
inductive Rule (β : Type) where
  | done (value : β) (rest : Scanner)
  /-- The token cannot stand where it does. -/
  | fail (culprit : Token)
  /-- A phrase is needed before going on. -/
  | await (goal : Goal) (rest : Scanner) (resume : Piece → Scanner → Rule β)
  /-- One of two phrases is needed before going on. -/
  | either (first second : Goal) (rest : Scanner) (resume : Piece → Scanner → Rule β)

/-- Go on with the value of a rule. -/
def Rule.andThen {β γ : Type} (next : β → Scanner → Rule γ) : Rule β → Rule γ
  | done b s => next b s
  | fail t => fail t
  | await goal s resume => await goal s fun p s => (resume p s).andThen next
  | either first second s resume => either first second s fun p s => (resume p s).andThen next

/-- Reads part of a source. -/
def Parser (β : Type) := Scanner → Rule β

instance : Monad Parser where
  pure b := fun s => .done b s
  bind p f := fun s => (p s).andThen f

/-! ### Driving the rules -/

/-- What waits for a phrase. -/
structure Waiting where
  resume : Piece → Scanner → Rule Piece
  /-- How many alternatives stay open once the phrase is read, if it settles any. -/
  kept : Option Nat

/-- Another phrase to read, if the one that is being read does not fit. -/
structure Alternative where
  goal : Goal
  start : Scanner
  waiting : List Waiting

/-- The alternatives that stay open once the phrase is read. -/
def Waiting.settle (w : Waiting) (others : List Alternative) : List Alternative :=
  match w.kept with
  | some n => others.drop (others.length - n)
  | none => others

/-- Read a phrase by the rules of a grammar.  What waits for it is kept in a list, and so are
alternatives, the one to try next first. -/
def drive (rules : Goal → Parser Piece) :
    Nat → List Waiting → List Alternative → Rule Piece → Except Token Piece
  | _, _, [], .fail t => .error t
  | _, [], _, .done p _ => .ok p
  | 0, _, _, .fail t => .error t
  | 0, _, _, .done _ s => .error s.token
  | 0, _, _, .await _ s _ => .error s.token
  | 0, _, _, .either _ _ s _ => .error s.token
  | n + 1, _, a :: others, .fail _ => drive rules n a.waiting others (rules a.goal a.start)
  | n + 1, w :: waiting, others, .done p s =>
    drive rules n waiting (w.settle others) (w.resume p s)
  | n + 1, waiting, others, .await goal s resume =>
    let w := ⟨resume, if goal.settles then some others.length else none⟩
    drive rules n (w :: waiting) others (rules goal s)
  | n + 1, waiting, others, .either first second s resume =>
    let waiting := ⟨resume, none⟩ :: waiting
    drive rules n waiting (⟨second, s, waiting⟩ :: others) (rules first s)

/-! ### Steps -/

namespace Parser

/-- The next token. -/
def peek : Parser Token := fun s => .done s.token s

/-- The token behind the next one. -/
def peekSecond : Parser Token := fun s => .done s.advance.token s

/-- Take the next token for a name, if it is a word that starts neither a statement nor a value. -/
def free : Parser Unit := fun s => .done () { s with token := s.token.freed }

/-- Pass the next token. -/
def advance : Parser Unit := fun s => .done () s.advance

/-- The next token cannot stand here. -/
def reject {β : Type} : Parser β := fun s => .fail s.token

/-- Go on only if a condition holds. -/
def ensure (holds : Bool) : Parser Unit := if holds then pure () else reject

/-- Wait for a phrase. -/
def phrase (goal : Goal) : Parser Piece := fun s => .await goal s .done

/-- Wait for a phrase, or for another one if that does not fit. -/
def either (first second : Goal) : Parser Piece := fun s => .either first second s .done

/-- The next token behind an expression.  If the statement ends before it, it counts as the end of
the source. -/
def following (site : Site) : Parser Token := do
  let t ← peek
  return if site.ending && t.ending then { t with kind := .finish } else t

/-- Pass a punctuator if it comes next. -/
def accept (text : String) : Parser Bool := do
  if (← peek).isMark text then
    advance
    return true
  else return false

/-- Pass a punctuator, which has to come next. -/
def expect (text : String) : Parser Unit := do ensure (← accept text)

/-- Pass a word if it comes next. -/
def acceptWord (text : String) : Parser Bool := do
  if (← peek).isWord text then
    advance
    return true
  else return false

/-- Pass a word, which has to come next. -/
def expectWord (text : String) : Parser Unit := do ensure (← acceptWord text)

/-- Repeat a step until it comes to a result.  Each round should pass a token. -/
def repeating {σ β : Type} (step : σ → Parser (σ ⊕ β)) (start : σ) : Parser β := fun s =>
  let rec rounds : Nat → σ → Parser β
    | 0, _ => reject
    | n + 1, x => do
      match ← step x with
      | .inl x => rounds n x
      | .inr b => return b
  rounds s.limit start s

/-! ### Trees -/

/-- Where the next token starts. -/
def position : Parser Mark := fun s => .done s.token.start s

/-- A node from a position up to the last token passed. -/
def node (kind : String) (start : Mark) (children : List SyntaxTree) : Parser SyntaxTree := fun s =>
  .done (.node ⟨kind, start.byte, s.last.byte, start.row, start.column, true, false, false, none⟩
    children) s

/-- A piece that is only an expression. -/
def made (kind : String) (start : Mark) (children : List SyntaxTree) : Parser Piece := do
  return { tree := ← node kind start children }

/-- Pass a token and make a node of it. -/
def leaf (kind : String) : Parser SyntaxTree := do
  let start ← position
  advance
  node kind start []

/-- Refuse what is not an expression. -/
def solid (p : Piece) : Parser SyntaxTree := do
  ensure !p.cover.pending
  return p.tree

/-- An expression without commas. -/
def value (site : Site) : Parser SyntaxTree := do solid (← phrase (.assignment site))

/-- An expression. -/
def expressionTree (site : Site) : Parser SyntaxTree := do solid (← phrase (.expression site))

/-- The end of a statement, which may have a value for its last part. -/
def semicolon (afterValue : Bool) : Parser Unit := do
  if !(← peek).allowsEnd afterValue then expect ";"

end Parser

/-- The same node, playing a part in its parent. -/
def inField (field : String) : SyntaxTree → SyntaxTree
  | .node i cs => .node { i with field := some field } cs

/-- The same node, a mark or a keyword. -/
def unnamed : SyntaxTree → SyntaxTree
  | .node i cs => .node { i with named := false } cs

/-- Position of a node. -/
def startOf (t : SyntaxTree) : Mark := ⟨t.info.start, t.info.row, t.info.column⟩

end StackScript.Grammar
