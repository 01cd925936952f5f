import StackScript.Grammar.Expression

/-!
# Statements

Rules for statements and declarations.  Constructs that the compiler has no use for are read to
their end and leave a node without children.
-/

namespace StackScript.Grammar

open Grammar.Parser

/-- A statement, which ends where the last token did. -/
def statementNode (kind : String) (start : Mark) : Parser Piece := made kind start []

/-- Statements up to the closing brace, which is passed. -/
def statementsToBrace : Parser (List SyntaxTree) := do
  let found ← repeating (fun (ts : List SyntaxTree) => do
    if ← accept "\x7d" then return .inr ts
    else return .inl ((← phrase .statement).tree :: ts)) []
  return found.reverse

/-- Statements in braces.  Where a value could stand as well, the first word may be a name. -/
def block (mixed : Bool) : Parser Piece := do
  let start ← position
  expect "\x7b"
  if mixed then free
  let body ← statementsToBrace
  made "statement_block" start body

/-- A statement can end before a token that follows its closing brace. -/
def closesStatement (t : Token) : Bool := t.ending || !t.joins

/-- Statements in braces, with no joint behind them. -/
def closedBlock : Parser Piece := do
  let p ← phrase (.block true)
  ensure (closesStatement (← peek))
  return p

/-- A condition in parentheses. -/
def condition : Parser SyntaxTree := do
  let start ← position
  expect "("
  let inner ← expressionTree .inside
  expect ")"
  node "parenthesized_expression" start [inner]

/-! ### Declarations -/

/-- What a declaration names: a name, or a pattern of names. -/
def declaredTarget : Parser SyntaxTree := do
  let t ← peek
  if t.isMark "[" || t.isMark "\x7b" then
    let p ← if t.isMark "[" then array else object
    ensure p.cover.pattern
    return asPattern p.tree
  else
    ensure t.isIdentifier
    leaf "identifier"

/-- The rest of a declarator behind its target, unless the statement ends there. -/
def declaratorFrom (target : SyntaxTree) (site : Site) : Parser SyntaxTree := do
  let name := inField "name" target
  let t ← peek
  if t.isMark "=" && !t.bareEnding then
    advance
    let v ← value site
    node "variable_declarator" (startOf target) [name, inField "value" v]
  else node "variable_declarator" (startOf target) [name]

/-- The declarator has a value. -/
def hasValue (declarator : SyntaxTree) : Bool := declarator.children.length == 2

/-- Declarators with commas between them, and the end of the statement. -/
def declarators : Parser (List SyntaxTree) := do
  let first ← declaratorFrom (← declaredTarget) .tail
  let found ← repeating (fun ((d, ds) : SyntaxTree × List SyntaxTree) => do
    let t ← peek
    if t.isMark "," && !t.allowsEnd (hasValue d) then
      advance
      return .inl (← declaratorFrom (← declaredTarget) .tail, d :: ds)
    else
      semicolon (hasValue d)
      return .inr (d :: ds)) (first, [])
  return found.reverse

/-- The kind of node for declarations by a keyword. -/
def declarationNode (keyword : String) : String :=
  if keyword == "var" then "variable_declaration" else "lexical_declaration"

/-- A declaration of variables by the keyword that comes next. -/
def declaration (keyword : String) : Parser Piece := do
  let start ← position
  let kind ← leaf keyword
  let found ← declarators
  made (declarationNode keyword) start (inField "kind" (unnamed kind) :: found)

/-- A token that a declaration by `let` can go on with. -/
def startsTarget (t : Token) : Bool := t.isIdentifier || t.isMark "[" || t.isMark "\x7b"

/-- The word `let` before a token declares variables; otherwise it is a name. -/
def declares (second : Token) : Bool := startsTarget second && !second.ending

/-! ### Choices and loops -/

/-- A choice by a condition. -/
def choice : Parser Piece := do
  let start ← position
  expectWord "if"
  let test ← condition
  let body ← phrase .statement
  let parts := [inField "condition" test, inField "consequence" body.tree]
  let otherwise ← position
  if ← acceptWord "else" then
    let alternative ← phrase .statement
    let clause ← node "else_clause" otherwise [alternative.tree]
    made "if_statement" start (parts ++ [inField "alternative" clause])
  else made "if_statement" start parts

/-- The word before the members that a loop runs over. -/
def isMembersWord (t : Token) : Bool := t.isWord "in" || t.isWord "of"

/-- The word `let` before a token declares variables in the header of a loop. -/
def declaresInHeader (second : Token) : Bool := startsTarget second && !second.isWord "of"

/-- What a loop over members assigns them to. -/
def membersTarget : Parser Unit := do
  let t ← peek
  if t.isWord "var" then
    advance
    let d ← declaratorFrom (← declaredTarget) { joinsIn := false, ending := true }
    ensure !(← peek).allowsEnd (hasValue d)
  else if t.isWord "const" || (t.isWord "let" && declaresInHeader (← peekSecond)) then
    advance
    let _ ← declaredTarget
  else
    let p ← phrase (.access .inside)
    ensure p.cover.assignable

/-- A loop over the members of a value. -/
def membersLoop : Parser Piece := do
  let start ← position
  expectWord "for"
  let _ ← acceptWord "await"
  expect "("
  membersTarget
  ensure (isMembersWord (← peek))
  advance
  let _ ← expressionTree .inside
  expect ")"
  let _ ← phrase .statement
  statementNode "for_in_statement" start

/-- What a loop with a test does first. -/
def countingStart : Parser Unit := do
  let t ← peek
  if t.isWord "var" || t.isWord "const" || (t.isWord "let" && declaresInHeader (← peekSecond)) then
    advance
    let _ ← declarators
  else if !(← accept ";") then
    let _ ← expressionTree .inside
    expect ";"

/-- A loop with a test. -/
def countingLoop : Parser Piece := do
  let start ← position
  expectWord "for"
  expect "("
  countingStart
  if !(← accept ";") then
    let _ ← expressionTree .inside
    expect ";"
  if !(← accept ")") then
    let _ ← expressionTree .inside
    expect ")"
  let _ ← phrase .statement
  statementNode "for_statement" start

/-- A loop that tests first. -/
def whileLoop : Parser Piece := do
  let start ← position
  expectWord "while"
  let _ ← condition
  let _ ← phrase .statement
  statementNode "while_statement" start

/-- A loop that tests last; no semicolon is needed behind it. -/
def doLoop : Parser Piece := do
  let start ← position
  expectWord "do"
  let _ ← phrase .statement
  expectWord "while"
  let _ ← condition
  if !(← peek).bareEnding then
    let _ ← accept ";"
  statementNode "do_statement" start

/-- Statements of a case, up to the next one or the closing brace. -/
def caseBody : Parser Unit :=
  repeating (fun _ => do
    let t ← peek
    if t.isMark "\x7d" || t.isWord "case" || t.isWord "default" then return .inr ()
    else
      let _ ← phrase .statement
      return .inl ()) ()

/-- A choice by value. -/
def switch : Parser Piece := do
  let start ← position
  expectWord "switch"
  let _ ← condition
  expect "\x7b"
  repeating (fun _ => do
    if ← accept "\x7d" then return .inr ()
    else if ← acceptWord "default" then
      expect ":"
      caseBody
      return .inl ()
    else
      expectWord "case"
      let _ ← expressionTree .inside
      expect ":"
      caseBody
      return .inl ()) ()
  statementNode "switch_statement" start

/-! ### Jumps and guards -/

/-- A jump that may name a label. -/
def jump (keyword : String) : Parser Piece := do
  let start ← position
  advance
  let t ← peek
  if t.isIdentifier && !t.bareEnding then advance
  semicolon false
  statementNode (keyword ++ "_statement") start

/-- A jump that may hand over a value. -/
def result : Parser Piece := do
  let start ← position
  expectWord "return"
  let t ← peek
  if t.isMark ";" || t.bareEnding then semicolon false
  else
    let _ ← expressionTree .tail
    semicolon true
  statementNode "return_statement" start

/-- A jump to whoever guards against it. -/
def throwing : Parser Piece := do
  let start ← position
  expectWord "throw"
  let _ ← expressionTree .tail
  semicolon true
  statementNode "throw_statement" start

/-- What is done about a jump that is caught. -/
def catchClause : Parser Unit := do
  if ← acceptWord "catch" then
    if ← accept "(" then
      let _ ← declaredTarget
      expect ")"
    let _ ← phrase (.block false)

/-- What is done in any case. -/
def finallyClause : Parser Unit := do
  if ← acceptWord "finally" then
    let _ ← phrase (.block false)

/-- A guarded block. -/
def guarded : Parser Piece := do
  let start ← position
  expectWord "try"
  let _ ← phrase (.block false)
  catchClause
  finallyClause
  statementNode "try_statement" start

/-- A statement with the members of a value as names. -/
def withMembers : Parser Piece := do
  let start ← position
  expectWord "with"
  let _ ← condition
  let _ ← phrase .statement
  statementNode "with_statement" start

/-! ### Modules -/

/-- A name as another module knows it. -/
def exchangedName : Parser Unit := do
  let t ← peek
  ensure (t.isIdentifier || t.isWord "default" || t.kind == .string)
  advance

/-- A name as this module knows it. -/
def localName : Parser Unit := do
  ensure (← peek).isIdentifier
  advance

/-- A name that is handed out, perhaps under another name. -/
def exportedName : Parser Unit := do
  exchangedName
  if ← acceptWord "as" then exchangedName

/-- A name that is taken, perhaps under another name. -/
def importedName : Parser Unit := do
  let t ← peek
  exchangedName
  if ← acceptWord "as" then localName else ensure t.isIdentifier

/-- Names in braces, with commas between them. -/
def exchangedNames (name : Parser Unit) : Parser Unit := do
  expect "\x7b"
  if ← accept "," then expect "\x7d"
  else
    repeating (fun _ => do
      if ← accept "\x7d" then return .inr ()
      else
        name
        if ← accept "\x7d" then return .inr ()
        else
          expect ","
          return .inl ()) ()

/-- The module that names come from. -/
def moduleName : Parser Unit := do
  ensure ((← peek).kind == .string)
  advance
  let t ← peek
  if t.isWord "with" && !t.bareEnding then
    advance
    let _ ← solid (← object)

/-- All names of a module, under one name. -/
def allNames (name : Parser Unit) : Parser Unit := do
  expect "*"
  expectWord "as"
  name

/-- What is taken from a module: a default, other names, or both. -/
def importClause : Parser Unit := do
  let more ← do
    if (← peek).isIdentifier then
      advance
      accept ","
    else pure true
  if more then
    if (← peek).isMark "*" then allNames localName else exchangedNames importedName

/-- A statement that takes names from a module. -/
def importing : Parser Piece := do
  let start ← position
  expectWord "import"
  if (← peek).kind != .string then
    importClause
    expectWord "from"
  moduleName
  semicolon false
  statementNode "import_statement" start

/-- The word and the one behind it start a function or a class. -/
def startsDefinition (t second : Token) : Bool :=
  t.isWord "function" || t.isWord "class" || (t.isWord "async" && second.isWord "function")

/-- A function or class with a name. -/
def namedDefinition : Parser Piece := do
  let start ← position
  if (← peek).isWord "class" then
    classHead true
    statementNode "class_declaration" start
  else
    let _ ← acceptWord "async"
    let generator ← functionHead true
    statementNode (if generator then "generator_function_declaration" else "function_declaration")
      start

/-- A function or class with a name, and with no joint behind it. -/
def definition : Parser Piece := do
  let p ← namedDefinition
  ensure (closesStatement (← peek))
  return p

/-- An expression for its effect. -/
def effect : Parser Piece := do
  let start ← position
  let inner ← expressionTree .tail
  semicolon true
  made "expression_statement" start [inner]

/-- What a module hands out by default. -/
def defaultExport : Parser Unit := do
  let t ← peek
  let second ← peekSecond
  if t.isWord "var" || t.isWord "const" || (t.isWord "let" && declares second) then
    let _ ← declaration t.text
  else if startsDefinition t second && !(t.isWord "async" && second.ending) then
    let _ ← either .definition .exportedValue
  else
    let _ ← phrase .exportedValue

/-- A value that a module hands out. -/
def exportedValue : Parser Piece := do
  let start ← position
  let inner ← value .tail
  semicolon true
  made "expression_statement" start [inner]

/-- The word `export` before a token gives names to other modules; otherwise it is a name. -/
def exports (second : Token) : Bool :=
  !second.ending &&
    (["default", "function", "class", "async", "var", "let", "const"].any second.isWord ||
      second.isMark "*" || second.isMark "\x7b")

/-- A statement that gives names to other modules. -/
def exporting : Parser Piece := do
  let start ← position
  expectWord "export"
  let t ← peek
  if ← acceptWord "default" then defaultExport
  else if t.isMark "*" then
    advance
    if ← acceptWord "as" then exchangedName
    expectWord "from"
    moduleName
    semicolon false
  else if t.isMark "\x7b" then
    exchangedNames exportedName
    if (← peek).isWord "from" && !(← peek).bareEnding then
      advance
      moduleName
    semicolon false
  else if ["var", "let", "const"].any t.isWord then
    let _ ← declaration t.text
  else
    ensure (startsDefinition t (← peekSecond))
    let _ ← namedDefinition
  statementNode "export_statement" start

/-! ### Any statement -/

/-- A statement that stops a debugger. -/
def debugging : Parser Piece := do
  let start ← position
  advance
  semicolon false
  statementNode "debugger_statement" start

/-- A statement under a label. -/
def labeled : Parser Piece := do
  let start ← position
  advance
  expect ":"
  let _ ← phrase .statement
  statementNode "labeled_statement" start

/-- A statement that starts with a word. -/
def wordStatement (t second : Token) : Parser Piece :=
  match t.text with
  | "if" => choice
  | "for" => either .membersLoop .countingLoop
  | "while" => whileLoop
  | "do" => doLoop
  | "switch" => switch
  | "break" => jump "break"
  | "continue" => jump "continue"
  | "return" => result
  | "throw" => throwing
  | "try" => guarded
  | "with" => withMembers
  | "debugger" => debugging
  | "var" => declaration "var"
  | "const" => declaration "const"
  | "function" | "class" => either .definition .effect
  | "import" =>
    if ["(", ".", "?."].any second.isMark then effect else importing
  | _ =>
    if t.isLabel && second.isMark ":" && !second.ending then labeled
    else if t.text == "let" && declares second then declaration "let"
    else if t.text == "export" && exports second then exporting
    else if t.text == "async" && second.isWord "function" && !second.ending then
      either .definition .effect
    else effect

/-- A statement. -/
def statement : Parser Piece := do
  let t ← peek
  if t.kind == .name then wordStatement t (← peekSecond)
  else if t.isMark "\x7b" then braced closesStatement (.block true) .closedBlock .effect
  else if t.isMark ";" then
    let start ← position
    advance
    statementNode "empty_statement" start
  else effect

/-- A whole script. -/
def script : Parser Piece := do
  let found ← repeating (fun (ts : List SyntaxTree) => do
    if (← peek).kind == .finish then return .inr ts
    else return .inl ((← phrase .statement).tree :: ts)) []
  made "program" ⟨0, 0, 0⟩ found.reverse

end StackScript.Grammar
