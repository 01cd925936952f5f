import StackScript.Compile.Pass
import StackScript.Literal.Number
import StackScript.Literal.Quoted

/-!
# Compilation

`Script.compile` turns a script into a program, all or nothing: a refused script leaves the scope
as it was.  `Script.compileEach` compiles the statements of the outermost level one by one and
leaves out those that are refused.

A declaration binds every name of its pattern to the whole value given, computed again for each
name.
-/

namespace StackScript

variable {α : Type}

/-! ### Expressions -/

/-- The instruction of a binary operator. -/
def binaryInstruction? : String → Option Instruction
  | "+" => some .add
  | "-" => some .sub
  | "*" => some .mul
  | "/" => some .div
  | "===" => some .eq
  | _ => none

/-- Push the value of a number literal. -/
def pushNumber (pos : Position) (text : String) : Build α Unit :=
  if Literal.isBigint text then .refuse pos (.bigint text)
  else match Literal.number? text with
    | some x => .pushConstant (.number x)
    | none => .refuse pos (.invalidNumber text)

/-- Push the text of a string literal. -/
def pushString (pos : Position) (text : String) : Build α Unit :=
  match Literal.string text with
  | .ok s => .pushConstant (.string s)
  | .error .unpairedSurrogate => .refuse pos (.unpairedSurrogate text)
  | .error .outOfRange => .refuse pos (.invalidString text)
  | .error .overflow => .breakDown .hugeEscape

/-- Push the value of a variable. -/
def pushVariable (pos : Position) (name : String) : Build α Unit := do
  let scope := (← get).scope
  match scope.slot? name with
  | some slot => .emit (.loadContext slot)
  | none => if scope.isGlobal name then .refuse pos (.global name) else .refuse pos (.unbound name)

/-- Code that pushes the value of an expression. -/
def Expr.build (s : Settings) (depth : Nat) : Expr → Build α Unit
  | .number pos text => do
    .enter s depth pos
    pushNumber pos (← .read text)
  | .boolean pos value => do
    .enter s depth pos
    .pushConstant (.boolean value)
  | .string pos text => do
    .enter s depth pos
    pushString pos (← .read text)
  | .identifier pos name => do
    .enter s depth pos
    pushVariable pos (← .read name)
  | .parenthesized pos inner => do
    .enter s depth pos
    inner.build s (depth + 1)
  | .binary pos left right operator => do
    .enter s depth pos
    left.build s (depth + 1)
    right.build s (depth + 1)
    let operator ← .read operator
    match binaryInstruction? operator with
    | some i => .emit i
    | none => .refuse pos (.operator operator)
  | .unsupported pos kind => .refuse pos (.expression kind)
  | .broken why => .breakDown why

/-! ### Declarations -/

/-- Define a name and bind it to a value, if one is given. -/
def bindName (s : Settings) (depth : Nat) (value : Option Expr) (name : String) :
    Build α Unit := do
  let slot ← .define name
  match value with
  | none => pure ()
  | some e => do
    e.build s depth
    .emit (.setContext slot)

/-- The name that a pair of an object pattern binds: its key. -/
def PropertyKey.read : PropertyKey → Build α String
  | .name text => .read text
  | .computed pos => .refuse pos .computedKey
  | .unsupported pos kind => .refuse pos (.propertyKey kind)
  | .broken why => .breakDown why

/-- The name that a property of an object pattern binds. -/
def Property.read : Property → Build α String
  | .shorthand name => .read name
  | .pair key => key.read
  | .unsupported pos kind => .refuse pos (.property kind)

mutual

/-- Bind the names of a pattern. -/
def Pattern.build (s : Settings) (depth : Nat) (value : Option Expr) : Pattern → Build α Unit
  | .identifier pos name => do
    .enter s depth pos
    bindName s (depth + 1) value (← .read name)
  | .array pos elements => do
    .enter s depth pos
    Pattern.buildAll s (depth + 1) value elements
  | .object pos properties => do
    .enter s depth pos
    properties.forM fun p => do bindName s (depth + 1) value (← p.read)
  | .unsupported pos kind => .refuse pos (.pattern kind)
  | .broken why => .breakDown why

/-- Bind the names of several patterns to the same value. -/
def Pattern.buildAll (s : Settings) (depth : Nat) (value : Option Expr) :
    List Pattern → Build α Unit
  | [] => pure ()
  | p :: ps => do
    p.build s depth value
    Pattern.buildAll s depth value ps

end

/-! ### Statements -/

mutual

/-- Code of a statement. -/
def Stmt.build (s : Settings) (depth : Nat) : Stmt → Build α Unit
  | .expression pos value => do
    .enter s depth pos
    value.build s (depth + 1)
  | .lexical pos kind declarators => do
    .enter s depth pos
    let kind ← .read kind
    if kind ≠ "let" then .refuse pos (.declaration kind)
    declarators.forM fun d => d.target.build s (depth + 1) d.value
  | .foreign pos kind => do
    .enter s depth pos
    .refuse pos (.declaration kind)
  | .ifThen pos test body => do
    .enter s depth pos
    test.build s (depth + 1)
    let skip ← .emitJump .jumpIfFalse
    body.build s (depth + 1)
    let done ← .emitJump .jump
    .patch skip
    .patch done
  | .ifElse pos test body alternative => do
    .enter s depth pos
    test.build s (depth + 1)
    let skip ← .emitJump .jumpIfFalse
    body.build s (depth + 1)
    let done ← .emitJump .jump
    .patch skip
    alternative.build s (depth + 1)
    .patch done
  | .empty pos => do
    .enter s depth pos
    if s.emptyHalts then .emit .halt
  | .block pos body => do
    .enter s depth pos
    Stmt.buildAll s (depth + 1) body
  | .unsupported pos kind => .refuse pos (.statement kind)
  | .broken why => .breakDown why

/-- Code of several statements. -/
def Stmt.buildAll (s : Settings) (depth : Nat) : List Stmt → Build α Unit
  | [] => pure ()
  | t :: ts => do
    t.build s depth
    Stmt.buildAll s depth ts

end

/-! ### Scripts -/

/-- Length of the text that a complaint about the grammar shows. -/
def excerptLength : Nat := 40

/-- Refuse what violates the grammar. -/
def checkDamage : Option Damage → Build α Unit
  | none => pure ()
  | some d => do
    let text ← .read d.text
    .refuse d.pos (.grammar (String.ofList (text.toList.take excerptLength)))

/-- The outcome of a pass: its result, the scope it leaves, and what it did. -/
structure Outcome (α β : Type) where
  result : β
  scope : Scope α
  journal : List Entry

/-- A program, and the errors of the statements left out of it. -/
structure Report where
  program : Program
  errors : List CompileError

/-- Compile a whole script.  A refused script leaves no variables behind. -/
def Script.compile (script : Script) (s : Settings) (scope : Scope α) :
    Outcome α (Except Fault Program) :=
  let steps : Build α Unit := do
    checkDamage script.damage
    Stmt.buildAll s 0 (script.body.map TopLevel.stmt)
  match steps.run (.start scope) with
  | .ok () p =>
    let (program, p) := p.finish s.name
    ⟨.ok program, p.scope, p.journal.toList⟩
  | .error (.refused e) p =>
    ⟨.error (.refused e), p.scope.rollback scope.checkpoint,
      (p.record (.failed s.name e)).journal.toList⟩
  | .error (.broken why) p => ⟨.error (.broken why), p.scope, p.journal.toList⟩

/-- Undo all that a pass has built since an earlier state, its journal apart. -/
def Pass.restore (p earlier : Pass α) : Pass α :=
  { p with
    assembler := p.assembler.truncate earlier.assembler.size
    pool := p.pool.truncate earlier.pool.size
    scope := p.scope.rollback earlier.scope.checkpoint }

/-- Compile statements one by one; refused ones are undone and their errors kept. -/
def compileStatements (s : Settings) (p : Pass α) (errors : List CompileError) :
    List TopLevel → Except Breakdown (List CompileError) × Pass α
  | [] => (.ok errors.reverse, p)
  | t :: rest =>
    let steps : Build α Unit := do
      checkDamage t.damage
      t.stmt.build s 0
    match steps.run p with
    | .ok () p => compileStatements s p errors rest
    | .error (.refused e) q =>
      compileStatements s ((q.restore p).record (.skipped e)) (e :: errors) rest
    | .error (.broken why) q => (.error why, q)

/-- Compile the statements of a script that can be compiled. -/
def Script.compileEach (script : Script) (s : Settings) (scope : Scope α) :
    Outcome α (Except Breakdown Report) :=
  match compileStatements s (.start scope) [] script.body with
  | (.ok errors, p) =>
    let (program, p) := p.finish s.name
    ⟨.ok ⟨program, errors⟩, p.scope, p.journal.toList⟩
  | (.error why, p) => ⟨.error why, p.scope, p.journal.toList⟩

end StackScript
