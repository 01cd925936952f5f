import StackScript.Proofs.Machine
import StackScript.Proofs.ScriptPlan

/-!
# The direct meaning of a script

A script can be evaluated as it stands, without code, jumps or constants: an expression has a
value, and a statement changes a stack and a store.

* `Expr.eval` : the value of an expression;
* `evalBindings` : a declaration evaluates its value once for each name it binds, from left to
  right, and stores it in the slot of that name.  The name being bound is already in scope then;
* `Stmt.eval`, `Script.eval` : an expression statement pushes its value, a condition decides by
  the value of its test which branch counts, and a block is its statements one after the other.

Names mean slots as in a pass: both branches of a condition bind names, whichever is taken.
Constructs outside the language have no meaning (`none`).
-/

namespace StackScript

variable {α V : Type}

/-- The meaning of a sign between two expressions. -/
def Semantics.operator? (m : Semantics V) : String → Option (V → V → V)
  | "+" => some m.add
  | "-" => some m.sub
  | "*" => some m.mul
  | "/" => some m.div
  | "===" => some m.eq
  | _ => none

/-- The value of an expression. -/
def Expr.eval (m : Semantics V) (scope : Scope α) (store : Nat → V) : Expr → Option V
  | .number _ text => do
    let x ← Literal.number? (← text.toOption)
    return m.constant (.number x)
  | .boolean _ value => some (m.constant (.boolean value))
  | .string _ text => do
    let s ← (Literal.string (← text.toOption)).toOption
    return m.constant (.string s)
  | .identifier _ name => do
    let slot ← scope.slot? (← name.toOption)
    return store slot
  | .parenthesized _ inner => inner.eval m scope store
  | .binary _ left right operator => do
    let f ← m.operator? (← operator.toOption)
    return f (← left.eval m scope store) (← right.eval m scope store)
  | .unsupported .. | .broken _ => none

/-- Bind names one after the other to a value, computed anew for each, if there is one. -/
def evalBindings (value : Option (Scope α → (Nat → V) → Option V)) :
    Scope α → List String → Memory V → Option (Memory V)
  | _, [], mem => some mem
  | scope, name :: names, mem =>
    let inner := (scope.define name none).2
    match value with
    | none => evalBindings none inner names mem
    | some f => do
      let v ← f inner mem.store
      evalBindings (some f) inner names (mem.assign scope.slotCount v)

/-- The effect of declarators. -/
def Declarator.evalAll (m : Semantics V) :
    Scope α → List Declarator → Memory V → Option (Memory V)
  | _, [], mem => some mem
  | scope, d :: ds, mem => do
    let mem ← evalBindings (d.value.map fun e σ store => e.eval m σ store) scope d.target.names mem
    Declarator.evalAll m (scope.defineAll d.target.names) ds mem

mutual

/-- The effect of a statement. -/
def Stmt.eval (m : Semantics V) (scope : Scope α) (mem : Memory V) : Stmt → Option (Memory V)
  | .expression _ value => do return mem.push (← value.eval m scope mem.store)
  | .lexical _ word declarators =>
    if word.toOption = some "let" then Declarator.evalAll m scope declarators mem else none
  | .ifThen _ test body => do
    if m.falsy (← test.eval m scope mem.store) then return mem
    else body.eval m scope mem
  | .ifElse _ test body alternative => do
    if m.falsy (← test.eval m scope mem.store) then
      alternative.eval m (scope.defineAll body.names) mem
    else body.eval m scope mem
  | .empty _ => some mem
  | .block _ body => Stmt.evalAll m scope mem body
  | .foreign .. | .unsupported .. | .broken _ => none

/-- The effect of several statements. -/
def Stmt.evalAll (m : Semantics V) (scope : Scope α) (mem : Memory V) :
    List Stmt → Option (Memory V)
  | [] => some mem
  | t :: ts => do Stmt.evalAll m (scope.defineAll t.names) (← t.eval m scope mem) ts

end

/-- The effect of a script. -/
def Script.eval (m : Semantics V) (scope : Scope α) (mem : Memory V) (script : Script) :
    Option (Memory V) :=
  Stmt.evalAll m scope mem script.stmts

end StackScript
