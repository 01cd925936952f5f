import StackScript.Grammar.Rule

/-!
# Expressions

Rules for expressions, and with them for patterns and parameters: these are read as the literals
that they look like, and `asPattern` renames the nodes once it is known what they are.
-/

namespace StackScript.Grammar

open Grammar.Parser

/-! ### Patterns -/

mutual

/-- The tree of a literal, as that of a pattern. -/
def asPattern : SyntaxTree → SyntaxTree
  | .node i cs =>
    match i.kind with
    | "array" => .node { i with kind := "array_pattern" } (asPatterns cs)
    | "object" => .node { i with kind := "object_pattern" } (asPatterns cs)
    | "assignment_expression" => .node { i with kind := "assignment_pattern" } (asTarget cs)
    | "spread_element" =>
      match cs with
      | [.node { kind := "assignment_expression", .. } _] =>
        .node { i with kind := "assignment_pattern" } []
      | _ => .node { i with kind := "rest_pattern" } (asPatterns cs)
    | "pair" => .node { i with kind := "pair_pattern" } (asPatterns cs)
    | "shorthand_property_identifier" =>
      .node { i with kind := "shorthand_property_identifier_pattern" } cs
    | _ => .node i cs

/-- The trees of literals, as those of patterns. -/
def asPatterns : List SyntaxTree → List SyntaxTree
  | [] => []
  | t :: ts => asPattern t :: asPatterns ts

/-- The trees below an assignment, the first as that of a pattern. -/
def asTarget : List SyntaxTree → List SyntaxTree
  | [] => []
  | t :: ts => asPattern t :: ts

end

/-! ### Lists in brackets -/

/-- Items of a list. -/
structure Items where
  trees : List SyntaxTree
  /-- A place between commas holds nothing. -/
  gap : Bool
  /-- An item is spread. -/
  spread : Bool
  /-- The list ends with a comma. -/
  trailing : Bool
  /-- Every item can be a pattern. -/
  patterns : Bool
  /-- Some item is not an expression. -/
  pending : Bool

/-- No items. -/
def Items.empty : Items := ⟨[], false, false, false, true, false⟩

/-- Items up to a closing bracket, which is passed.  Places may be empty. -/
def items (close : String) (item : Parser Piece) : Parser Items := do
  let found ← repeating (fun (l : Items) => do
    if ← accept close then return .inr l
    else if ← accept "," then return .inl { l with gap := true }
    else
      let p ← item
      let l := { l with
        trees := p.tree :: l.trees
        spread := l.spread || p.tree.kind == "spread_element"
        patterns := l.patterns && p.cover.element
        pending := l.pending || p.cover.pending }
      if ← accept close then return .inr { l with trailing := false }
      else
        expect ","
        return .inl { l with trailing := true }) Items.empty
  return { found with trees := found.trees.reverse }

/-- An expression, or several ones spread. -/
def listItem : Parser Piece := do
  let start ← position
  if ← accept "..." then
    let p ← phrase (.assignment .inside)
    let tree ← node "spread_element" start [p.tree]
    return ⟨tree, { pattern := p.cover.pattern, element := p.cover.element,
                    pending := p.cover.pending }⟩
  else phrase (.assignment .inside)

/-- The items can be parameters. -/
def Items.parameters (l : Items) : Bool := l.patterns && !l.gap

/-- Parameters in parentheses. -/
def parameters : Parser Unit := do
  expect "("
  let l ← items ")" listItem
  ensure l.parameters

/-- Arguments of a call. -/
def arguments : Parser Items := do
  expect "("
  items ")" listItem

/-- An array, or a pattern for one. -/
def array : Parser Piece := do
  let start ← position
  expect "["
  let l ← items "]" listItem
  let tree ← node "array" start l.trees
  return ⟨tree, { assignable := l.patterns, pattern := l.patterns, element := l.patterns,
                  pending := l.pending }⟩

/-- Several expressions with commas between them, as one. -/
def joined : List SyntaxTree → Parser (List SyntaxTree)
  | t :: u :: ts => do return [← node "sequence_expression" (startOf t) (t :: u :: ts)]
  | ts => pure ts

/-- One expression in parentheses, or parameters. -/
def parenthesized : Parser Piece := do
  let start ← position
  expect "("
  let l ← items ")" listItem
  let isValue := !l.trees.isEmpty && !l.gap && !l.spread && !l.trailing
  let tree ← node "parenthesized_expression" start (← joined l.trees)
  let pending := l.pending || !isValue
  return ⟨tree, { augmentable := !pending, assignable := !pending, parameters := l.parameters,
                  pending }⟩

/-! ### Functions -/

/-- Parameters and body of a function. -/
def functionTail : Parser Unit := do
  parameters
  let _ ← phrase (.block false)

/-- A function, from its keyword on; whether it is a generator. -/
def functionHead (named : Bool) : Parser Bool := do
  expectWord "function"
  let generator ← accept "*"
  if (← peek).isIdentifier then advance else ensure !named
  functionTail
  return generator

/-! ### Objects and classes -/

/-- The name of a property. -/
def propertyName : Parser SyntaxTree := do
  let t ← peek
  match t.kind with
  | .name => leaf "property_identifier"
  | .privateName => leaf "private_property_identifier"
  | .string => leaf "string"
  | .number => leaf "number"
  | _ =>
    let start ← position
    expect "["
    let inner ← value .inside
    expect "]"
    node "computed_property_name" start [inner]

/-- The word before a property name says how to read the property, as the token behind it is not one
that could follow a name. -/
def isModifier (words : List String) (t second : Token) : Bool :=
  t.kind == .name && words.contains t.text &&
    !(["(", ",", ":", "=", ";", "\x7d"].any second.isMark || second.kind == .finish)

/-- Pass one of some words before a property name.  In a class, where a line can end a member, the
word has to stand on the line of what it belongs to. -/
def modifier (words : List String) (inClass : Bool) : Parser Bool := do
  let second ← peekSecond
  if isModifier words (← peek) second && !(inClass && second.bareEnding) then
    advance
    return true
  else return false

/-- The text starts with the words `static` and `get` and a line that ends behind them. -/
def isStaticGetter (cs : List Char) : Bool :=
  let isPlain (c : Char) : Bool := c == ' ' || (0x09 ≤ c.toNat && c.toNat ≤ 0x0D)
  let behind := cs.drop 6
  let name := behind.dropWhile isPlain
  "static".toList.isPrefixOf cs && startsWith isPlain behind && "get".toList.isPrefixOf name &&
    ((name.drop 3).takeWhile isPlain).contains '\n'

/-- Pass the words `static` and `get`, if they stand together at the end of a line. -/
def staticGetter : Parser Bool := fun s =>
  if isStaticGetter s.here.rest then .done true s.advance.advance else .done false s

/-- Which words stand before a property name. -/
structure Modifiers where
  isStatic : Bool
  /-- The property can only be a method. -/
  isMethod : Bool

/-- The words before a property name. -/
def modifiers (inClass : Bool) : Parser Modifiers := do
  let getter ← staticGetter
  let isStatic ← if getter then pure true else modifier ["static"] inClass
  let isAsync ← modifier ["async"] inClass
  let isMethod ←
    if ← accept "*" then pure true
    else modifier ["get", "set"] (inClass && !getter && !isAsync)
  return ⟨isStatic, getter || isAsync || isMethod⟩

/-- A method, from its name on. -/
def method (start : Mark) : Parser Piece := do
  let _ ← propertyName
  functionTail
  made "method_definition" start []

/-- A default for a target in a pattern, from the equals sign on. -/
def defaultedTarget (start : Mark) : Parser Piece := do
  expect "="
  let v ← value .inside
  let tree ← node "object_assignment_pattern" start [inField "right" v]
  return ⟨tree, { element := true, pending := true }⟩

/-- A property with the name before a colon. -/
def pair (start : Mark) (key : SyntaxTree) : Parser Piece := do
  expect ":"
  let spread := (← peek).isMark "..."
  let p ← listItem
  let tree ← node "pair" start [inField "key" key, inField "value" p.tree]
  return ⟨tree, { element := p.cover.element, pending := p.cover.pending || spread }⟩

/-- A property that starts with a bracket: its name is computed, or it is a pattern with a default. -/
def bracketedProperty : Parser Piece := do
  let start ← position
  expect "["
  let l ← items "]" listItem
  let t ← peek
  if t.isMark "=" then
    ensure l.patterns
    defaultedTarget start
  else
    ensure (l.trees.length == 1 && !l.gap && !l.spread && !l.trailing && !l.pending)
    let key ← node "computed_property_name" start l.trees
    if t.isMark "(" then
      functionTail
      made "method_definition" start []
    else pair start key

/-- A property that starts with its name. -/
def namedProperty : Parser Piece := do
  let start ← position
  let t ← peek
  let key ← propertyName
  let second ← peek
  if second.isMark "(" then
    functionTail
    made "method_definition" start []
  else if second.isMark ":" then pair start key
  else
    ensure (t.kind == .name)
    if second.isMark "=" then defaultedTarget start
    else return ⟨← node "shorthand_property_identifier" start [], { element := true }⟩

/-- A property of an object. -/
def property : Parser Piece := do
  let start ← position
  let t ← peek
  if t.isMark "..." then
    let p ← listItem
    return ⟨p.tree, { element := p.cover.pattern, pending := p.cover.pending }⟩
  else if t.isMark "\x7b" then
    let p ← phrase (.access .inside)
    ensure (p.tree.kind == "object" && p.cover.pattern)
    defaultedTarget start
  else
    let m ← modifiers false
    if m.isStatic || m.isMethod then method start
    else if (← peek).isMark "[" then bracketedProperty
    else namedProperty

/-- An object, or a pattern for one. -/
def object : Parser Piece := do
  let start ← position
  expect "\x7b"
  let l ← items "\x7d" property
  let tree ← node "object" start l.trees
  return ⟨tree, { assignable := l.patterns, pattern := l.patterns, element := l.patterns,
                  pending := l.pending }⟩

/-- A member of a class. -/
def classMember : Parser Unit := do
  if ← accept ";" then return
  let t ← peek
  let second ← peekSecond
  if t.isWord "static" && second.isMark "\x7b" && !second.bareEnding then
    advance
    let _ ← phrase (.block false)
  else
    let m ← modifiers true
    let _ ← propertyName
    let t ← peek
    if m.isMethod then functionTail
    else if t.bareEnding then return
    else if t.isMark "(" then functionTail
    else if ← accept "=" then
      let _ ← value .tail
      semicolon true
    else semicolon false

/-- Members of a class up to the closing brace, which is passed. -/
def classMembers : Parser Unit :=
  repeating (fun _ => do
    if ← accept "\x7d" then return .inr ()
    else
      classMember
      return .inl ()) ()

/-- A class, from its keyword on. -/
def classHead (named : Bool) : Parser Unit := do
  expectWord "class"
  if (← peek).isIdentifier then advance else ensure !named
  if ← acceptWord "extends" then
    let _ ← value .inside
  expect "\x7b"
  classMembers

/-! ### Templates and regular expressions -/

/-- Text of a template up to its end or to a hole. -/
def templateText : Parser Bool := fun s =>
  match templatePart? 0 s.next.rest with
  | some (n, hole) => .done hole (scan s.limit (s.next.forward n))
  | none => .fail s.token

/-- A template; the brace that closes a hole is not passed as a token, since text follows it. -/
def template : Parser SyntaxTree := do
  let start ← position
  repeating (fun _ => do
    if ← templateText then
      let _ ← expressionTree .inside
      ensure ((← peek).isMark "\x7d")
      return .inl ()
    else return .inr ()) ()
  node "template_string" start []

/-- A regular expression. -/
def regex (site : Site) : Parser SyntaxTree := do
  let start ← position
  (fun s => match regexLength? s.limit site.ending s.here.rest with
    | some n => .done () (scan s.limit (s.here.forward n))
    | none => .fail s.token : Parser Unit)
  node "regex" start []

/-! ### Values -/

/-- The name behind a point. -/
def memberName : Parser Unit := do
  let t ← peek
  ensure (t.kind == .name || t.kind == .privateName)
  advance

/-- An index in brackets. -/
def index : Parser Unit := do
  expect "["
  let _ ← expressionTree .inside
  expect "]"

/-- A call by `new`, or the name of what was called so. -/
def construction (site : Site) : Parser Piece := do
  let start ← position
  expectWord "new"
  if ← accept "." then
    expectWord "target"
    made "meta_property" start []
  else
    let p ← phrase (.constructor site)
    let _ ← solid p
    if (← following site).isMark "(" then
      let l ← arguments
      ensure !l.pending
    return ⟨← node "new_expression" start [], { footing := .construction }⟩

/-- A module loaded while running, or what is known of this one. -/
def importValue : Parser Piece := do
  let start ← position
  expectWord "import"
  if (← peek).isMark "(" then
    let l ← arguments
    ensure !l.pending
    made "call_expression" start []
  else
    let chained ← accept "?."
    if !chained then expect "."
    if !chained && (← acceptWord "meta") then made "meta_property" start []
    else
      memberName
      return ⟨← node "member_expression" start [], .part⟩

/-- A value that starts with a word. -/
def wordValue (site : Site) (t : Token) : Parser Piece := do
  let start ← position
  match t.text with
  | "this" | "null" | "true" | "false" | "super" => return { tree := ← leaf t.text }
  | "undefined" => return ⟨← leaf "undefined", { Cover.part with augmentable := false }⟩
  | "function" =>
    let generator ← functionHead false
    made (if generator then "generator_function" else "function_expression") start []
  | "class" =>
    classHead false
    made "class" start []
  | "new" => construction site
  | "import" => importValue
  | "yield" => reject
  | _ =>
    let second ← peekSecond
    if t.text == "async" && second.isWord "function" && !(site.ending && second.ending) then
      advance
      let generator ← functionHead false
      made (if generator then "generator_function" else "function_expression") start []
    else
      ensure t.isName
      return ⟨← leaf "identifier", { Cover.name with marksFunction := t.text == "async" }⟩

/-- A value by itself. -/
def primary (site : Site) : Parser Piece := do
  let t ← peek
  match t.kind with
  | .name => wordValue site t
  | .number => return { tree := ← leaf "number" }
  | .string => return { tree := ← leaf "string" }
  | .privateName =>
    ensure ((← peekSecond).isWord "in")
    return { tree := ← leaf "private_property_identifier" }
  | .mark =>
    match t.text with
    | "(" => parenthesized
    | "[" => array
    | "\x7b" => object
    | "`" => return { tree := ← template }
    | "/" | "/=" => return { tree := ← regex site }
    | _ => reject
  | _ => reject

/-- Accesses and, if allowed, calls behind a value. -/
def accesses (site : Site) (calls : Bool) (first : Piece) : Parser Piece :=
  repeating (fun (p : Piece) => do
    let t ← following site
    let start := startOf p.tree
    if p.cover.pending then return .inr p
    else if t.isMark "." then
      advance
      memberName
      return .inl ⟨← node "member_expression" start [], .part⟩
    else if t.isMark "[" then
      index
      return .inl ⟨← node "subscript_expression" start [], .part⟩
    else if t.isMark "`" && p.cover.footing != .compound then
      let _ ← template
      return .inl (← made "call_expression" start [])
    else if t.isMark "?." then
      advance
      let t ← peek
      if t.isMark "(" then
        ensure (p.cover.footing == .primary)
        let l ← arguments
        ensure !l.pending
        return .inl (← made "call_expression" start [])
      else if t.isMark "[" then
        index
        return .inl ⟨← node "subscript_expression" start [], .part⟩
      else
        memberName
        return .inl ⟨← node "member_expression" start [], .part⟩
    else if calls && t.isMark "(" then
      let l ← arguments
      let tree ← node "call_expression" start []
      if p.cover.marksFunction then
        return .inl ⟨tree, { parameters := l.parameters, pending := l.pending }⟩
      else
        ensure !l.pending
        return .inl { tree }
    else return .inr p) first

/-- A value with accesses and calls behind it. -/
def access (site : Site) : Parser Piece := do accesses site true (← primary site)

/-! ### Braces -/

/-- What a brace opens where statements could stand as well as a value. -/
inductive BraceReading where
  | block
  | value
  /-- A block, or a value if that does not fit. -/
  | blockOrValue
  /-- A value, or a block if that does not fit. -/
  | valueOrBlock

/-- What a brace opens, by the two tokens behind it.  `closes` says of a token whether a block can
end before it. -/
def BraceReading.of (closes : Token → Bool) (first second : Token) : BraceReading :=
  let startsMember := second.kind != .mark || second.isMark "[" || second.isMark "*"
  match first.kind with
  | .name =>
    if !first.isLabel then .block
    else if second.isMark ":" then .valueOrBlock
    else if second.isMark "(" || second.isMark "=" then .blockOrValue
    else if second.isMark "\x7d" then if second.ending then .block else .value
    else if ["get", "set", "async", "static"].contains first.text && startsMember &&
        !second.ending then .blockOrValue
    else .block
  | .string | .number =>
    if second.isMark ":" then .value else if second.isMark "(" then .blockOrValue else .block
  | .privateName => if second.isWord "in" then .block else .value
  | .mark =>
    match first.text with
    | "\x7d" => if closes second then .block else .value
    | "[" => .blockOrValue
    | "*" | "..." | "," => .value
    | _ => .block
  | _ => .block

/-- The two tokens behind a brace. -/
def peekBehind : Parser (Token × Token) := fun s =>
  .done (s.advance.token.freed, s.advance.advance.token) s

/-- Read what a brace opens, by the phrases for a block, for one that may have to give way to a
value, and for a value. -/
def braced (closes : Token → Bool) (statements tentative plain : Goal) : Parser Piece := do
  let (first, second) ← peekBehind
  match BraceReading.of closes first second with
  | .block => phrase statements
  | .value => phrase plain
  | .blockOrValue => either tentative plain
  | .valueOrBlock => either plain statements

/-! ### Operators -/

/-- How tightly an operator binds, from the loosest up. -/
def bindingLevel? (site : Site) (t : Token) : Option Nat :=
  match t.kind with
  | .mark =>
    match t.text with
    | "??" => some 1
    | "||" => some 2
    | "&&" => some 3
    | "|" => some 4
    | "^" => some 5
    | "&" => some 6
    | "==" | "!=" | "===" | "!==" => some 7
    | "<" | "<=" | ">" | ">=" => some 8
    | "<<" | ">>" | ">>>" => some 9
    | "+" | "-" => some 10
    | "*" | "/" | "%" => some 11
    | "**" => some 12
    | _ => none
  | .name => if t.text == "instanceof" || (site.joinsIn && t.text == "in") then some 8 else none
  | _ => none

/-- Only powers associate to the right. -/
def rightLevel (level : Nat) : Nat := if level = 12 then 12 else level + 1

/-- Assignments that read their target first. -/
def augmentedOperators : List String :=
  ["+=", "-=", "*=", "/=", "%=", "^=", "&=", "|=", ">>=", ">>>=", "<<=", "**=", "&&=", "||=", "??="]

/-- Updates of a value, each with accesses and calls behind it. -/
def updates (site : Site) (first : Piece) : Parser Piece :=
  repeating (fun (p : Piece) => do
    let t ← following site
    if ["++", "--"].any t.isMark then
      let tree ← solid p
      advance
      let update ← node "update_expression" (startOf tree) []
      return .inl (← accesses site true ⟨update, { footing := .compound }⟩)
    else return .inr p) first

/-- What stands behind the arrow of a function: a value, or a block that was read as such. -/
def arrowBody (site : Site) : Parser Piece := do
  expect "=>"
  if (← peek).isMark "\x7b" then
    braced (fun t => !t.isMark "=") (.block true) (.block true) (.assignment site)
  else phrase (.assignment site)

/-- A function from its arrow on.  If a block is its body it can be accessed or called right away. -/
def arrowTail (start : Mark) (site : Site) : Parser Piece := do
  let body ← arrowBody site
  let _ ← solid body
  let p ← made "arrow_function" start []
  if body.tree.kind == "statement_block" then updates site (← accesses site true p) else return p

/-- What the operand before arrows and an assignment becomes. -/
def completed (site : Site) (operand : Piece) : Parser Piece :=
  repeating (fun (p : Piece) => do
    let t ← following site
    let start := startOf p.tree
    if t.isMark "=>" && p.cover.parameters then return .inl (← arrowTail start site)
    else if t.isMark "=" && p.cover.assignable then
      advance
      let right ← value site
      let tree ← node "assignment_expression" start [inField "left" p.tree, inField "right" right]
      return .inr ⟨tree, { element := p.cover.pattern }⟩
    else if augmentedOperators.any t.isMark && p.cover.augmentable then
      let _ ← solid p
      advance
      let _ ← value site
      return .inr (← made "augmented_assignment_expression" start [])
    else return .inr p) operand

/-- A value with accesses, calls, updates and an assignment behind it. -/
def operand (site : Site) : Parser Piece := do
  completed site (← updates site (← phrase (.access site)))

/-- What `new` is applied to. -/
def constructor (site : Site) : Parser Piece := do
  let start ← position
  let p ← accesses site false (← primary site)
  if p.cover.parameters && (← following site).isMark "=>" then
    let _ ← solid (← arrowBody site)
    made "arrow_function" start []
  else return p

/-- Whether a token can start an expression, for all that some marks are also operators between
two. -/
def startsOperand (t : Token) : Bool :=
  match t.kind with
  | .name => !(["in", "instanceof"].contains t.text)
  | .number | .string | .privateName => true
  | .mark => ["(", "[", "\x7b", "`", "!", "~", "+", "-", "++", "--", "/"].contains t.text
  | _ => false

/-- The word `await` with an operand. -/
def awaited (site : Site) : Parser Piece := do
  let start ← position
  advance
  let _ ← solid (← phrase (.unary site))
  made "await_expression" start []

/-- A call or an access at the very end of the source. -/
def lastAccess (site : Site) : Parser Piece := do
  let p ← phrase (.access site)
  let _ ← solid p
  ensure (← peek).last
  return p

/-- The word `await` before a token that can start its operand.  It is a name if no operand can be
read, and also if it is called or accessed at the very end of the source. -/
def awaitOperand (site : Site) (second : Token) : Parser Piece :=
  if site.ending && ["(", "[", "`"].any second.isMark then
    either (.lastAccess site) (.awaiting site)
  else phrase (.awaiting site)

/-- The word `yield`, perhaps with an operand. -/
def yielded (site : Site) : Parser Piece := do
  let start ← position
  advance
  let t ← following site
  if t.isMark "*" then
    advance
    let _ ← value site
    made "yield_expression" start []
  else if startsOperand t || t.isMark "/=" then
    let _ ← value site
    made "yield_expression" start []
  else
    let tree ← node "yield_expression" start []
    completed site (← updates site (← accesses site true ⟨tree, { footing := .compound }⟩))

/-- An operand of an operator. -/
def unary (site : Site) : Parser Piece := do
  let start ← position
  let t ← peek
  let second ← peekSecond
  let alone := site.ending && second.ending
  if ["!", "-", "+", "~"].any t.isMark || ["typeof", "void", "delete"].any t.isWord then
    advance
    let _ ← solid (← phrase (.unary site))
    made "unary_expression" start []
  else if ["++", "--"].any t.isMark then
    advance
    let _ ← solid (← phrase (.unary site))
    made "update_expression" start []
  else if t.isWord "await" && !alone && startsOperand second then awaitOperand site second
  else if t.isWord "yield" then yielded site
  else if t.isWord "async" && second.isName && !alone then
    advance
    advance
    completed site (← arrowTail start site)
  else phrase (.operand site)

/-- Operands joined by operators that bind at least as tightly as a level. -/
def binary (level : Nat) (site : Site) : Parser Piece := do
  let first ← phrase (.unary site)
  repeating (fun (p : Piece) => do
    let t ← following site
    match bindingLevel? site t with
    | none => return .inr p
    | some l =>
      if l < level then return .inr p
      else
        let left ← solid p
        let operator ← leaf t.text
        let right ← solid (← phrase (.binary (rightLevel l) site))
        let tree ← node "binary_expression" (startOf left)
          [inField "left" left, inField "operator" (unnamed operator), inField "right" right]
        return .inl { tree }) first

/-- An expression without commas.  A hard blank before the question mark hides it. -/
def assignment (site : Site) : Parser Piece := do
  let p ← phrase (.binary 1 site)
  let t ← following site
  if t.isMark "?" && !t.veiled then
    let test ← solid p
    advance
    let _ ← value .inside
    expect ":"
    let _ ← value site
    made "ternary_expression" (startOf test) []
  else return p

/-- Expressions with commas between them. -/
def expression (site : Site) : Parser Piece := do
  let first ← value site
  let rest ← repeating (fun (ts : List SyntaxTree) => do
    if (← following site).isMark "," then
      advance
      return .inl ((← value site) :: ts)
    else return .inr ts) []
  match rest with
  | [] => return { tree := first }
  | _ => made "sequence_expression" (startOf first) (first :: rest.reverse)

end StackScript.Grammar
