import StackScript.Compile
import StackScript.Proofs.Plan
import StackScript.Proofs.ScopeGrowth

/-!
# The plan of a script

What a script is compiled to, and whether it is refused, depends on the script, the settings and
the scope alone, and not on the code and the constants already there.  This file says how: every
construct has a plan in a scope, or a fault.

* `Expr.plan`, `Pattern.plan`, `Stmt.plan`, `Script.plan` : the plans;
* `Expr.Plans`, `Plan.Binds`, `Stmt.Plans` : the same without faults and depths, for arguments by
  induction on what was planned;
* `Pattern.names`, `Stmt.names`, `Script.names` : the names that a construct binds, in the order in
  which it binds them.  Behind a construct the scope is the one before it with these names defined.
-/

namespace StackScript

variable {α β : Type}

/-! ### Steps that need no state -/

/-- The fault of a script that is refused at a place. -/
def refusal (pos : Position) (cause : Cause) : Except Fault β := .error (.refused ⟨cause, pos⟩)

/-- The text of a lexeme. -/
def readable (l : Lexeme) : Except Fault String := l.mapError .broken

/-- One level more is allowed. -/
def Settings.allow (s : Settings) (depth : Nat) (pos : Position) : Except Fault Unit :=
  if s.maxDepth < depth + 1 then refusal pos (.tooDeep s.maxDepth) else .ok ()

/-- The value of a number literal. -/
def numberConstant (pos : Position) (text : String) : Except Fault Constant :=
  if Literal.isBigint text then refusal pos (.bigint text)
  else match Literal.number? text with
    | some x => .ok (.number x)
    | none => refusal pos (.invalidNumber text)

/-- The value of a string literal. -/
def stringConstant (pos : Position) (text : String) : Except Fault Constant :=
  match Literal.string text with
  | .ok s => .ok (.string s)
  | .error .unpairedSurrogate => refusal pos (.unpairedSurrogate text)
  | .error .outOfRange => refusal pos (.invalidString text)
  | .error .overflow => .error (.broken .hugeEscape)

/-- The slot that a name means. -/
def Scope.slotOf (scope : Scope α) (pos : Position) (name : String) : Except Fault Nat :=
  match scope.slot? name with
  | some slot => .ok slot
  | none => if scope.isGlobal name then refusal pos (.global name) else refusal pos (.unbound name)

/-- The operation of a sign. -/
def operationOf (pos : Position) (sign : String) : Except Fault Operation :=
  match Operation.ofSign? sign with
  | some op => .ok op
  | none => refusal pos (.operator sign)

theorem bind_eq_ok_iff {γ : Type} {x : Except Fault β} {f : β → Except Fault γ} {c : γ} :
    x >>= f = .ok c ↔ ∃ b, x = .ok b ∧ f b = .ok c := by
  cases x with
  | ok b => simp [bind, Except.bind]
  | error e => simp [bind, Except.bind]

theorem pure_eq_ok_iff {b c : β} : (pure b : Except Fault β) = .ok c ↔ c = b := by
  simp [pure, Except.pure, eq_comm]

@[simp] theorem refusal_ne_ok (pos : Position) (cause : Cause) (b : β) :
    refusal pos cause ≠ .ok b := by
  simp [refusal]

theorem readable_eq_ok_iff {l : Lexeme} {text : String} : readable l = .ok text ↔ l = .ok text := by
  cases l <;> simp [readable, Except.mapError]

theorem numberConstant_eq_ok_iff {pos : Position} {text : String} {c : Constant} :
    numberConstant pos text = .ok c ↔
      Literal.isBigint text = false ∧ ∃ x, Literal.number? text = some x ∧ c = .number x := by
  unfold numberConstant
  cases Literal.isBigint text with
  | true => simp
  | false => cases Literal.number? text <;> simp [eq_comm (b := c)]

theorem stringConstant_eq_ok_iff {pos : Position} {text : String} {c : Constant} :
    stringConstant pos text = .ok c ↔ ∃ t, Literal.string text = .ok t ∧ c = .string t := by
  unfold stringConstant
  split <;> rename_i h <;> simp [h, eq_comm (b := c)]

theorem Scope.slotOf_eq_ok_iff {scope : Scope α} {pos : Position} {name : String} {slot : Nat} :
    scope.slotOf pos name = .ok slot ↔ scope.slot? name = some slot := by
  unfold slotOf
  cases scope.slot? name with
  | some n => simp
  | none => dsimp only; split <;> simp

theorem operationOf_eq_ok_iff {pos : Position} {sign : String} {op : Operation} :
    operationOf pos sign = .ok op ↔ Operation.ofSign? sign = some op := by
  unfold operationOf
  cases Operation.ofSign? sign <;> simp

/-! ### Expressions -/

open Planned

/-- The plan that pushes the value of an expression. -/
def Expr.plan (s : Settings) (depth : Nat) (scope : Scope α) : Expr → Planned
  | .number pos text => do
    s.allow depth pos
    return .push (← numberConstant pos (← readable text))
  | .boolean pos value => do
    s.allow depth pos
    return .push (.boolean value)
  | .string pos text => do
    s.allow depth pos
    return .push (← stringConstant pos (← readable text))
  | .identifier pos name => do
    s.allow depth pos
    return .load (← scope.slotOf pos (← readable name))
  | .parenthesized pos inner => do
    s.allow depth pos
    inner.plan s (depth + 1) scope
  | .binary pos left right operator => do
    s.allow depth pos
    join (left.plan s (depth + 1) scope) (join (right.plan s (depth + 1) scope) do
      return .operate (← operationOf pos (← readable operator)))
  | .unsupported pos kind => refusal pos (.expression kind)
  | .broken why => .error (.broken why)

/-- What the plan of an expression looks like where there is one. -/
inductive Expr.Plans (scope : Scope α) : Expr → Plan → Prop
  | number {pos : Position} {text : String} {x : Double} (hbigint : Literal.isBigint text = false)
      (hx : Literal.number? text = some x) :
      Plans scope (.number pos (.ok text)) (.push (.number x))
  | boolean (pos : Position) (value : Bool) :
      Plans scope (.boolean pos value) (.push (.boolean value))
  | string {pos : Position} {text t : String} (ht : Literal.string text = .ok t) :
      Plans scope (.string pos (.ok text)) (.push (.string t))
  | identifier {pos : Position} {name : String} {slot : Nat}
      (hslot : scope.slot? name = some slot) :
      Plans scope (.identifier pos (.ok name)) (.load slot)
  | parenthesized {pos : Position} {inner : Expr} {a : Plan} (h : Plans scope inner a) :
      Plans scope (.parenthesized pos inner) a
  | binary {pos : Position} {left right : Expr} {sign : String} {op : Operation} {a b : Plan}
      (hleft : Plans scope left a) (hright : Plans scope right b)
      (hop : Operation.ofSign? sign = some op) :
      Plans scope (.binary pos left right (.ok sign)) (.andThen a (.andThen b (.operate op)))

theorem Expr.plans_of_plan {s : Settings} {scope : Scope α} {e : Expr} {depth : Nat} {a : Plan}
    (h : e.plan s depth scope = .ok a) : e.Plans scope a := by
  induction e generalizing depth a with
  | number pos text =>
    simp only [plan, bind_eq_ok_iff, readable_eq_ok_iff, numberConstant_eq_ok_iff,
      pure_eq_ok_iff] at h
    obtain ⟨-, -, text, rfl, _, ⟨hbigint, x, hx, rfl⟩, rfl⟩ := h
    exact .number hbigint hx
  | boolean pos value =>
    simp only [plan, bind_eq_ok_iff, pure_eq_ok_iff] at h
    obtain ⟨-, -, rfl⟩ := h
    exact .boolean pos value
  | string pos text =>
    simp only [plan, bind_eq_ok_iff, readable_eq_ok_iff, stringConstant_eq_ok_iff,
      pure_eq_ok_iff] at h
    obtain ⟨-, -, text, rfl, _, ⟨t, ht, rfl⟩, rfl⟩ := h
    exact .string ht
  | identifier pos name =>
    simp only [plan, bind_eq_ok_iff, readable_eq_ok_iff, Scope.slotOf_eq_ok_iff,
      pure_eq_ok_iff] at h
    obtain ⟨-, -, name, rfl, slot, hslot, rfl⟩ := h
    exact .identifier hslot
  | parenthesized pos inner ih =>
    obtain ⟨-, -, h⟩ := bind_eq_ok_iff.1 h
    exact .parenthesized (ih h)
  | binary pos left right operator ihl ihr =>
    simp only [plan, bind_eq_ok_iff, join_eq_ok_iff, readable_eq_ok_iff, operationOf_eq_ok_iff,
      pure_eq_ok_iff] at h
    obtain ⟨-, -, b, _, hb, ⟨c, _, hc, ⟨sign, rfl, op, hop, rfl⟩, rfl⟩, rfl⟩ := h
    exact .binary (ihl hb) (ihr hc) hop
  | unsupported pos kind => simp [plan] at h
  | broken why => simp [plan] at h

/-! ### Declarations -/

/-- The plan that defines a name and gives it a value, if there is one.  The value may mention the
name itself. -/
def bindingPlan (s : Settings) (depth : Nat) (value : Option Expr) (name : String)
    (scope : Scope α) : Planned :=
  match value with
  | none => .ok .skip
  | some e => join (e.plan s depth (scope.define name none).2) (.ok (.store scope.slotCount))

/-- The name that a pair of an object pattern binds. -/
def PropertyKey.nameOf : PropertyKey → Except Fault String
  | .name text => readable text
  | .computed pos => refusal pos .computedKey
  | .unsupported pos kind => refusal pos (.propertyKey kind)
  | .broken why => .error (.broken why)

/-- The name that a property of an object pattern binds. -/
def Property.nameOf : Property → Except Fault String
  | .shorthand name => readable name
  | .pair key => key.nameOf
  | .unsupported pos kind => refusal pos (.property kind)

/-- The plan of the properties of an object pattern. -/
def Property.planAll (s : Settings) (depth : Nat) (value : Option Expr) (scope : Scope α) :
    List Property → Planned
  | [] => .ok .skip
  | p :: ps => do
    let name ← p.nameOf
    join (bindingPlan s depth value name scope)
      (Property.planAll s depth value (scope.define name none).2 ps)

/-- The names that properties bind. -/
def Property.names (p : Property) : List String := p.nameOf.toOption.toList

mutual

/-- The names that a pattern binds, from left to right. -/
def Pattern.names : Pattern → List String
  | .identifier _ name => name.toOption.toList
  | .array _ elements => Pattern.namesAll elements
  | .object _ properties => properties.flatMap Property.names
  | .unsupported _ _ | .broken _ => []

/-- The names that several patterns bind. -/
def Pattern.namesAll : List Pattern → List String
  | [] => []
  | p :: ps => p.names ++ Pattern.namesAll ps

end

mutual

/-- The plan of a pattern, every name of which is given the same value. -/
def Pattern.plan (s : Settings) (depth : Nat) (value : Option Expr) (scope : Scope α) :
    Pattern → Planned
  | .identifier pos name => do
    s.allow depth pos
    bindingPlan s (depth + 1) value (← readable name) scope
  | .array pos elements => do
    s.allow depth pos
    Pattern.planAll s (depth + 1) value scope elements
  | .object pos properties => do
    s.allow depth pos
    Property.planAll s (depth + 1) value scope properties
  | .unsupported pos kind => refusal pos (.pattern kind)
  | .broken why => .error (.broken why)

/-- The plan of several patterns. -/
def Pattern.planAll (s : Settings) (depth : Nat) (value : Option Expr) (scope : Scope α) :
    List Pattern → Planned
  | [] => .ok .skip
  | p :: ps =>
    join (p.plan s depth value scope) (Pattern.planAll s depth value (scope.defineAll p.names) ps)

end

/-- A plan binds names one after the other: each to a value computed anew with the name itself in
scope, or to no value at all. -/
inductive Plan.Binds : Option Expr → Scope α → List String → Plan → Prop
  | nothing (value : Option Expr) (scope : Scope α) : Binds value scope [] .skip
  | declare (scope : Scope α) (name : String) : Binds none scope [name] .skip
  | assign {e : Expr} {scope : Scope α} {name : String} {a : Plan}
      (he : e.Plans (scope.define name none).2 a) :
      Binds (some e) scope [name] (.andThen a (.store scope.slotCount))
  | andThen {value : Option Expr} {scope : Scope α} {names more : List String} {a b : Plan}
      (ha : Binds value scope names a) (hb : Binds value (scope.defineAll names) more b) :
      Binds value scope (names ++ more) (.andThen a b)

section Binds

variable {s : Settings} {value : Option Expr}

theorem bindingPlan_binds {depth : Nat} {name : String} {scope : Scope α} {a : Plan}
    (h : bindingPlan s depth value name scope = .ok a) : a.Binds value scope [name] := by
  cases value with
  | none =>
    obtain rfl : Plan.skip = a := by simpa [bindingPlan] using h
    exact .declare scope name
  | some e =>
    obtain ⟨b, c, hb, hc, rfl⟩ := join_eq_ok_iff.1 h
    obtain rfl : Plan.store scope.slotCount = c := by simpa using hc
    exact .assign (Expr.plans_of_plan hb)

theorem Property.planAll_binds {depth : Nat} {ps : List Property} {scope : Scope α} {a : Plan}
    (h : Property.planAll s depth value scope ps = .ok a) :
    a.Binds value scope (ps.flatMap Property.names) := by
  induction ps generalizing scope a with
  | nil =>
    obtain rfl : Plan.skip = a := by simpa [planAll] using h
    exact .nothing value scope
  | cons p ps ih =>
    obtain ⟨name, hname, h⟩ := bind_eq_ok_iff.1 h
    obtain ⟨b, c, hb, hc, rfl⟩ := join_eq_ok_iff.1 h
    rw [List.flatMap_cons, show p.names = [name] by simp [names, hname, Except.toOption]]
    exact (bindingPlan_binds hb).andThen (ih hc)

mutual

/-- **The plan of a pattern binds the names of the pattern.** -/
theorem Pattern.plan_binds {depth : Nat} {scope : Scope α} {a : Plan} :
    (p : Pattern) → p.plan s depth value scope = .ok a → a.Binds value scope p.names
  | .identifier pos name, h => by
    simp only [plan, bind_eq_ok_iff, readable_eq_ok_iff] at h
    obtain ⟨-, -, text, rfl, h⟩ := h
    exact bindingPlan_binds h
  | .array pos elements, h => by
    obtain ⟨-, -, h⟩ := bind_eq_ok_iff.1 h
    exact Pattern.planAll_binds elements h
  | .object pos properties, h => by
    obtain ⟨-, -, h⟩ := bind_eq_ok_iff.1 h
    exact Property.planAll_binds h
  | .unsupported .., h => by simp [plan] at h
  | .broken .., h => by simp [plan] at h

theorem Pattern.planAll_binds {depth : Nat} {scope : Scope α} {a : Plan} :
    (ps : List Pattern) → Pattern.planAll s depth value scope ps = .ok a →
      a.Binds value scope (Pattern.namesAll ps)
  | [], h => by
    obtain rfl : Plan.skip = a := by simpa [planAll] using h
    exact .nothing value scope
  | p :: ps, h => by
    obtain ⟨b, c, hb, hc, rfl⟩ := join_eq_ok_iff.1 h
    exact (Pattern.plan_binds p hb).andThen (Pattern.planAll_binds ps hc)

end

end Binds

/-- The plan of the declarators of a declaration. -/
def Declarator.planAll (s : Settings) (depth : Nat) (scope : Scope α) : List Declarator → Planned
  | [] => .ok .skip
  | d :: ds =>
    join (d.target.plan s depth d.value scope)
      (Declarator.planAll s depth (scope.defineAll d.target.names) ds)

/-! ### Statements -/

mutual

/-- The names that a statement binds, in either branch of a condition. -/
def Stmt.names : Stmt → List String
  | .lexical _ _ declarators => declarators.flatMap fun d => d.target.names
  | .ifThen _ _ body => body.names
  | .ifElse _ _ body alternative => body.names ++ alternative.names
  | .block _ body => Stmt.namesAll body
  | .expression .. | .foreign .. | .empty _ | .unsupported .. | .broken _ => []

/-- The names that several statements bind. -/
def Stmt.namesAll : List Stmt → List String
  | [] => []
  | t :: ts => t.names ++ Stmt.namesAll ts

end

mutual

/-- The plan of a statement. -/
def Stmt.plan (s : Settings) (depth : Nat) (scope : Scope α) : Stmt → Planned
  | .expression pos value => do
    s.allow depth pos
    value.plan s (depth + 1) scope
  | .lexical pos kind declarators => do
    s.allow depth pos
    let kind ← readable kind
    if kind ≠ "let" then refusal pos (.declaration kind)
    Declarator.planAll s (depth + 1) scope declarators
  | .foreign pos kind => do
    s.allow depth pos
    refusal pos (.declaration kind)
  | .ifThen pos test body => do
    s.allow depth pos
    join (test.plan s (depth + 1) scope) (fork (body.plan s (depth + 1) scope) (.ok .skip))
  | .ifElse pos test body alternative => do
    s.allow depth pos
    join (test.plan s (depth + 1) scope)
      (fork (body.plan s (depth + 1) scope)
        (alternative.plan s (depth + 1) (scope.defineAll body.names)))
  | .empty pos => do
    s.allow depth pos
    return if s.emptyHalts then .halt else .skip
  | .block pos body => do
    s.allow depth pos
    Stmt.planAll s (depth + 1) scope body
  | .unsupported pos kind => refusal pos (.statement kind)
  | .broken why => .error (.broken why)

/-- The plan of several statements. -/
def Stmt.planAll (s : Settings) (depth : Nat) (scope : Scope α) : List Stmt → Planned
  | [] => .ok .skip
  | t :: ts => join (t.plan s depth scope) (Stmt.planAll s depth (scope.defineAll t.names) ts)

end

/-- What the plan of declarators looks like where there is one. -/
inductive Declarator.PlansAll : Scope α → List Declarator → Plan → Prop
  | nil (scope : Scope α) : PlansAll scope [] .skip
  | cons {scope : Scope α} {d : Declarator} {ds : List Declarator} {a b : Plan}
      (hd : a.Binds d.value scope d.target.names)
      (hds : PlansAll (scope.defineAll d.target.names) ds b) :
      PlansAll scope (d :: ds) (.andThen a b)

mutual

/-- What the plan of a statement looks like where there is one; an empty statement may halt. -/
inductive Stmt.Plans (halts : Bool) : Scope α → Stmt → Plan → Prop
  | expression {scope : Scope α} {pos : Position} {value : Expr} {a : Plan}
      (h : value.Plans scope a) : Plans halts scope (.expression pos value) a
  | lexical {scope : Scope α} {pos : Position} {ds : List Declarator} {a : Plan}
      (h : Declarator.PlansAll scope ds a) : Plans halts scope (.lexical pos (.ok "let") ds) a
  | ifThen {scope : Scope α} {pos : Position} {test : Expr} {body : Stmt} {a b : Plan}
      (ht : test.Plans scope a) (hb : Plans halts scope body b) :
      Plans halts scope (.ifThen pos test body) (.andThen a (.branch b .skip))
  | ifElse {scope : Scope α} {pos : Position} {test : Expr} {body alternative : Stmt}
      {a b c : Plan} (ht : test.Plans scope a) (hb : Plans halts scope body b)
      (hc : Plans halts (scope.defineAll body.names) alternative c) :
      Plans halts scope (.ifElse pos test body alternative) (.andThen a (.branch b c))
  | empty (scope : Scope α) (pos : Position) :
      Plans halts scope (.empty pos) (if halts then .halt else .skip)
  | block {scope : Scope α} {pos : Position} {body : List Stmt} {a : Plan}
      (h : Stmt.PlansAll halts scope body a) : Plans halts scope (.block pos body) a

/-- What the plan of several statements looks like where there is one. -/
inductive Stmt.PlansAll (halts : Bool) : Scope α → List Stmt → Plan → Prop
  | nil (scope : Scope α) : PlansAll halts scope [] .skip
  | cons {scope : Scope α} {t : Stmt} {ts : List Stmt} {a b : Plan}
      (ht : Stmt.Plans halts scope t a) (hts : PlansAll halts (scope.defineAll t.names) ts b) :
      PlansAll halts scope (t :: ts) (.andThen a b)

end

theorem Declarator.plansAll_of_planAll {s : Settings} {depth : Nat} {ds : List Declarator}
    {scope : Scope α} {a : Plan} (h : Declarator.planAll s depth scope ds = .ok a) :
    Declarator.PlansAll scope ds a := by
  induction ds generalizing scope a with
  | nil =>
    obtain rfl : Plan.skip = a := by simpa [planAll] using h
    exact .nil scope
  | cons d ds ih =>
    obtain ⟨b, c, hb, hc, rfl⟩ := join_eq_ok_iff.1 h
    exact .cons (Pattern.plan_binds d.target hb) (ih hc)

mutual

theorem Stmt.plans_of_plan {s : Settings} {depth : Nat} {scope : Scope α} {a : Plan} :
    (t : Stmt) → t.plan s depth scope = .ok a → Stmt.Plans s.emptyHalts scope t a
  | .expression pos value, h => by
    obtain ⟨-, -, h⟩ := bind_eq_ok_iff.1 h
    exact .expression (Expr.plans_of_plan h)
  | .lexical pos kind declarators, h => by
    simp only [plan, bind_eq_ok_iff, readable_eq_ok_iff] at h
    obtain ⟨-, -, kind, rfl, h⟩ := h
    split at h
    · simp [bind_eq_ok_iff] at h
    · next hkind =>
      obtain rfl : kind = "let" := by simpa using hkind
      exact .lexical (Declarator.plansAll_of_planAll h)
  | .ifThen pos test body, h => by
    simp only [plan, bind_eq_ok_iff, join_eq_ok_iff, fork_eq_ok_iff] at h
    obtain ⟨-, -, b, _, hb, ⟨c, _, hc, hskip, rfl⟩, rfl⟩ := h
    cases hskip
    exact .ifThen (Expr.plans_of_plan hb) (Stmt.plans_of_plan body hc)
  | .ifElse pos test body alternative, h => by
    simp only [plan, bind_eq_ok_iff, join_eq_ok_iff, fork_eq_ok_iff] at h
    obtain ⟨-, -, b, _, hb, ⟨c, d, hc, hd, rfl⟩, rfl⟩ := h
    exact .ifElse (Expr.plans_of_plan hb) (Stmt.plans_of_plan body hc)
      (Stmt.plans_of_plan alternative hd)
  | .empty pos, h => by
    simp only [plan, bind_eq_ok_iff, pure_eq_ok_iff] at h
    obtain ⟨-, -, rfl⟩ := h
    exact .empty scope pos
  | .block pos body, h => by
    obtain ⟨-, -, h⟩ := bind_eq_ok_iff.1 h
    exact .block (Stmt.plansAll_of_planAll body h)
  | .foreign .., h => by simp [plan, bind_eq_ok_iff] at h
  | .unsupported .., h => by simp [plan] at h
  | .broken .., h => by simp [plan] at h

theorem Stmt.plansAll_of_planAll {s : Settings} {depth : Nat} {scope : Scope α} {a : Plan} :
    (ts : List Stmt) → Stmt.planAll s depth scope ts = .ok a →
      Stmt.PlansAll s.emptyHalts scope ts a
  | [], h => by
    obtain rfl : Plan.skip = a := by simpa [planAll] using h
    exact .nil scope
  | t :: ts, h => by
    obtain ⟨b, c, hb, hc, rfl⟩ := join_eq_ok_iff.1 h
    exact .cons (Stmt.plans_of_plan t hb) (Stmt.plansAll_of_planAll ts hc)

end

/-! ### Scripts -/

/-- The statements of a script. -/
def Script.stmts (script : Script) : List Stmt := script.body.map TopLevel.stmt

/-- The names that a script binds. -/
def Script.names (script : Script) : List String := Stmt.namesAll script.stmts

/-- Nothing violates the grammar. -/
def intact : Option Damage → Except Fault Unit
  | none => .ok ()
  | some d => do
    let text ← readable d.text
    refusal d.pos (.grammar (String.ofList (text.toList.take excerptLength)))

/-- The plan of a script. -/
def Script.plan (s : Settings) (scope : Scope α) (script : Script) : Planned := do
  intact script.damage
  Stmt.planAll s 0 scope script.stmts

theorem Script.plansAll_of_plan {s : Settings} {scope : Scope α} {script : Script} {a : Plan}
    (h : script.plan s scope = .ok a) : Stmt.PlansAll s.emptyHalts scope script.stmts a := by
  obtain ⟨-, -, h⟩ := bind_eq_ok_iff.1 h
  exact Stmt.plansAll_of_planAll script.stmts h

end StackScript
