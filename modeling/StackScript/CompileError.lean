/-!
# Reasons to refuse a script

`Cause` says why a script is refused; each cause belongs to one `ErrorKind` and has one wording.
A `CompileError` adds the place in the source.
-/

namespace StackScript

/-- A place in the source: lines count from one, columns from zero in bytes of UTF-8. -/
structure Position where
  line : Nat
  column : Nat
deriving DecidableEq, Repr

/-- A message followed by its place, if it has one. -/
def Position.locate (message : String) : Option Position → String
  | none => message
  | some p => s!"{message} (at {p.line}:{p.column})"

/-- The classes of compile errors. -/
inductive ErrorKind where
  | syntaxError
  | unsupportedStatement
  | unsupportedDeclaration
  | unsupportedExpression
  | unsupportedOperator
  | unsupportedPattern
  | unsupportedConstruct
  | unboundIdentifier
  | nestingTooDeep
deriving DecidableEq, Repr

namespace ErrorKind

/-- The word that tells the class. -/
def name : ErrorKind → String
  | syntaxError => "SYNTAX_ERROR"
  | unsupportedStatement => "UNSUPPORTED_STATEMENT"
  | unsupportedDeclaration => "UNSUPPORTED_DECLARATION"
  | unsupportedExpression => "UNSUPPORTED_EXPRESSION"
  | unsupportedOperator => "UNSUPPORTED_OPERATOR"
  | unsupportedPattern => "UNSUPPORTED_PATTERN"
  | unsupportedConstruct => "UNSUPPORTED_CONSTRUCT"
  | unboundIdentifier => "UNBOUND_IDENTIFIER"
  | nestingTooDeep => "NESTING_TOO_DEEP"

/-- All classes. -/
def all : List ErrorKind :=
  [syntaxError, unsupportedStatement, unsupportedDeclaration, unsupportedExpression,
   unsupportedOperator, unsupportedPattern, unsupportedConstruct, unboundIdentifier,
   nestingTooDeep]

/-- The class a word tells. -/
def ofName? (s : String) : Option ErrorKind := all.find? (·.name == s)

end ErrorKind

/-- Why a script is refused. -/
inductive Cause where
  /-- The source does not follow the grammar; the text near the fault. -/
  | grammar (excerpt : String)
  | invalidNumber (text : String)
  | invalidString (text : String)
  | statement (kind : String)
  | declaration (kind : String)
  | expression (kind : String)
  | bigint (text : String)
  | unpairedSurrogate (text : String)
  | operator (text : String)
  | pattern (kind : String)
  | property (kind : String)
  | computedKey
  | propertyKey (kind : String)
  /-- A name of the surroundings, which code cannot reach yet. -/
  | global (name : String)
  | unbound (name : String)
  | tooDeep (limit : Int)
deriving DecidableEq, Repr

namespace Cause

/-- The class of a cause. -/
def kind : Cause → ErrorKind
  | grammar _ | invalidNumber _ | invalidString _ => .syntaxError
  | statement _ => .unsupportedStatement
  | declaration _ => .unsupportedDeclaration
  | expression _ | bigint _ | unpairedSurrogate _ => .unsupportedExpression
  | operator _ => .unsupportedOperator
  | pattern _ | property _ | computedKey | propertyKey _ => .unsupportedPattern
  | global _ => .unsupportedConstruct
  | unbound _ => .unboundIdentifier
  | tooDeep _ => .nestingTooDeep

/-- The wording of a cause. -/
def message : Cause → String
  | grammar excerpt => "Syntax error near '" ++ excerpt ++ "'"
  | invalidNumber text => s!"Invalid number literal: {text}"
  | invalidString text => s!"Invalid string literal: {text}"
  | statement kind => s!"Unsupported statement: {kind}"
  | declaration kind => s!"Unsupported declaration: {kind}"
  | expression kind => s!"Unsupported expression: {kind}"
  | bigint text => s!"BigInt literal not supported: {text}"
  | unpairedSurrogate text => s!"Unpaired surrogate in string literal: {text}"
  | operator text => s!"Unsupported binary operator: {text}"
  | pattern kind => s!"Unsupported binding pattern: {kind}"
  | property kind => s!"Unsupported object pattern property: {kind}"
  | computedKey => "Computed property key not supported"
  | propertyKey kind => s!"Unsupported property key: {kind}"
  | global name => s!"{name} is not supported yet"
  | unbound name => s!"ReferenceError: {name} is not defined"
  | tooDeep limit => s!"Nesting exceeds {limit} levels"

end Cause

/-- A refusal and its place. -/
structure CompileError where
  cause : Cause
  position : Position
deriving DecidableEq, Repr

namespace CompileError

/-- The class of the error. -/
def kind (e : CompileError) : ErrorKind := e.cause.kind

/-- The wording with the place. -/
def text (e : CompileError) : String := Position.locate e.cause.message (some e.position)

end CompileError

end StackScript
