import StackScript.Proofs.DepthLevels

/-!
# A counter of levels

Depth can be kept in one counter that all constructs share: it goes up before a construct and down
behind it, however the construct ends (`Counting.nested`).  Compilation with such a counter agrees
with compilation that hands the depth down:

* `Counting.Follows` : steps with a counter do what the steps for the depth in it do, and leave the
  counter as they found it;
* `Stmt.count_follows` : statements follow, whether they end, are refused or break down;
* `Counted.depth_of_mem_rounds` : hence the counter stands at zero before every statement of the
  outermost level;
* `Script.countEach_eq` : and compiling statements one by one with a counter gives the same.
-/

namespace StackScript

variable {α β γ : Type}

/-- A pass with a counter of levels. -/
structure Counted (α : Type) where
  depth : Int
  pass : Pass α

/-- Steps of a pass with a counter. -/
abbrev Counting (α β : Type) := EStateM Fault (Counted α) β

namespace Counting

/-- The result of steps that do not touch the counter. -/
def carry (depth : Int) : EStateM.Result Fault (Pass α) β → EStateM.Result Fault (Counted α) β
  | .ok b p => .ok b ⟨depth, p⟩
  | .error f p => .error f ⟨depth, p⟩

/-- Steps that do not touch the counter. -/
def lift (m : Build α β) : Counting α β := fun c => carry c.depth (m.run c.pass)

/-- Go one level deeper for the time of some steps.  The counter goes down again even if they fail,
or are not allowed at all. -/
def nested (s : Settings) (pos : Position) (body : Counting α Unit) : Counting α Unit := do
  modify fun c => { c with depth := c.depth + 1 }
  try
    if s.maxDepth < (← get).depth then lift (.refuse pos (.tooDeep s.maxDepth))
    body
  finally
    modify fun c => { c with depth := c.depth - 1 }

end Counting

open Counting

/-! ### Constructs with a counter -/

/-- Code that pushes the value of an expression. -/
def Expr.count (s : Settings) : Expr → Counting α Unit
  | .number pos text => nested s pos (lift do pushNumber pos (← .read text))
  | .boolean pos value => nested s pos (lift (.pushConstant (.boolean value)))
  | .string pos text => nested s pos (lift do pushString pos (← .read text))
  | .identifier pos name => nested s pos (lift do pushVariable pos (← .read name))
  | .parenthesized pos inner => nested s pos (inner.count s)
  | .binary pos left right operator => nested s pos do
    left.count s
    right.count s
    lift do
      let operator ← .read operator
      match binaryInstruction? operator with
      | some i => .emit i
      | none => .refuse pos (.operator operator)
  | .unsupported pos kind => lift (.refuse pos (.expression kind))
  | .broken why => lift (.breakDown why)

/-- Define a name and bind it to a value, if one is given. -/
def countName (s : Settings) (value : Option Expr) (name : String) : Counting α Unit := do
  let slot ← lift (.define name)
  match value with
  | none => pure ()
  | some e => do
    e.count s
    lift (.emit (.setContext slot))

mutual

/-- Bind the names of a pattern. -/
def Pattern.count (s : Settings) (value : Option Expr) : Pattern → Counting α Unit
  | .identifier pos name => nested s pos do countName s value (← lift (.read name))
  | .array pos elements => nested s pos (Pattern.countAll s value elements)
  | .object pos properties => nested s pos do
    properties.forM fun p => do countName s value (← lift p.read)
  | .unsupported pos kind => lift (.refuse pos (.pattern kind))
  | .broken why => lift (.breakDown why)

/-- Bind the names of several patterns to the same value. -/
def Pattern.countAll (s : Settings) (value : Option Expr) : List Pattern → Counting α Unit
  | [] => pure ()
  | p :: ps => do
    p.count s value
    Pattern.countAll s value ps

end

mutual

/-- Code of a statement. -/
def Stmt.count (s : Settings) : Stmt → Counting α Unit
  | .expression pos value => nested s pos (value.count s)
  | .lexical pos kind declarators => nested s pos do
    let kind ← lift (.read kind)
    if kind ≠ "let" then lift (.refuse pos (.declaration kind))
    declarators.forM fun d => d.target.count s d.value
  | .foreign pos kind => nested s pos (lift (.refuse pos (.declaration kind)))
  | .ifThen pos test body => nested s pos do
    test.count s
    let skip ← lift (.emitJump .jumpIfFalse)
    body.count s
    lift do
      let done ← .emitJump .jump
      .patch skip
      .patch done
  | .ifElse pos test body alternative => nested s pos do
    test.count s
    let skip ← lift (.emitJump .jumpIfFalse)
    body.count s
    let done ← lift (.emitJump .jump)
    lift (.patch skip)
    alternative.count s
    lift (.patch done)
  | .empty pos => nested s pos (lift (if s.emptyHalts then .emit .halt else pure ()))
  | .block pos body => nested s pos (Stmt.countAll s body)
  | .unsupported pos kind => lift (.refuse pos (.statement kind))
  | .broken why => lift (.breakDown why)

/-- Code of several statements. -/
def Stmt.countAll (s : Settings) : List Stmt → Counting α Unit
  | [] => pure ()
  | t :: ts => do
    t.count s
    Stmt.countAll s ts

end

/-! ### The counter follows the depth -/

namespace Counting

/-- With the counter at a depth, steps do what other steps do, and leave the counter as they found
it, however they end. -/
def Follows (depth : Nat) (m : Counting α β) (m' : Build α β) : Prop :=
  ∀ p, m.run ⟨depth, p⟩ = carry depth (m'.run p)

variable {depth : Nat} {m : Counting α β} {m' : Build α β}

theorem follows_lift (m : Build α β) : Follows depth (lift m) m := fun _ => rfl

theorem Follows.bind {k : β → Counting α γ} {k' : β → Build α γ} (hm : Follows depth m m')
    (hk : ∀ b, Follows depth (k b) (k' b)) : Follows depth (m >>= k) (m' >>= k') := by
  intro p
  rw [EStateM.run_bind, EStateM.run_bind, hm p]
  cases m'.run p with
  | ok b q => exact hk b q
  | error f q => rfl

theorem Follows.forM {δ : Type} {l : List δ} {k : δ → Counting α PUnit} {k' : δ → Build α PUnit}
    (h : ∀ x ∈ l, Follows depth (k x) (k' x)) : Follows depth (l.forM k) (l.forM k') := by
  induction l with
  | nil => exact follows_lift (pure ())
  | cons x l ih =>
    obtain ⟨hx, hl⟩ := List.forall_mem_cons.1 h
    change Follows depth (k x >>= fun _ => l.forM k) (k' x >>= fun _ => l.forM k')
    exact hx.bind fun _ => ih hl

/-- What follows a construct: the counter goes down, whatever the result is. -/
def leave : EStateM.Result Fault (Counted α) β → EStateM.Result Fault (Counted α) β
  | .ok b c => .ok b { c with depth := c.depth - 1 }
  | .error f c => .error f { c with depth := c.depth - 1 }

theorem leave_carry (depth : Int) (r : EStateM.Result Fault (Pass α) β) :
    leave (carry (depth + 1) r) = carry depth r := by
  have hback : depth + 1 - 1 = depth := by omega
  cases r with
  | ok b p => simp only [carry, leave, hback]
  | error f p => simp only [carry, leave, hback]

theorem run_finally (m : Counting α Unit) (c : Counted α) :
    (try m finally modify fun c => { c with depth := c.depth - 1 } : Counting α Unit).run c =
      leave (m.run c) := by
  simp only [EStateM.run, tryFinally, tryFinally', Functor.map, EStateM.map]
  cases m c with
  | ok b q => rfl
  | error f q => rfl

theorem run_nested (s : Settings) (pos : Position) (body : Counting α Unit) (c : Counted α) :
    (nested s pos body).run c =
      leave (if s.maxDepth < c.depth + 1
        then carry (c.depth + 1) (.error (.refused ⟨.tooDeep s.maxDepth, pos⟩) c.pass)
        else body.run { c with depth := c.depth + 1 }) := by
  have hsteps : (nested s pos body).run c = leave ((do
      if s.maxDepth < (← get).depth then lift (.refuse pos (.tooDeep s.maxDepth))
      body : Counting α Unit).run { c with depth := c.depth + 1 }) := run_finally _ _
  rw [hsteps, EStateM.run_bind, EStateM.run_get]
  by_cases hcut : s.maxDepth < c.depth + 1
  · simp only [if_pos hcut]
    rfl
  · simp only [if_neg hcut]

/-- **One level deeper**, and the counter comes back. -/
theorem Follows.nested {s : Settings} {pos : Position} {body : Counting α Unit}
    {body' : Build α Unit} (h : Follows (depth + 1) body body') :
    Follows depth (nested s pos body) (.enter s depth pos >>= fun _ => body') := by
  intro p
  -- The counter is already up when it is compared with the limit, a depth handed down is not.
  rw [run_nested, EStateM.run_bind]
  unfold Build.enter
  by_cases hcut : s.maxDepth < depth + 1
  · rw [if_pos hcut, if_pos hcut]
    exact leave_carry ..
  · rw [if_neg hcut, if_neg hcut]
    exact (congrArg leave (h p)).trans (leave_carry (depth : Int) (body'.run p))

end Counting

variable {s : Settings}

theorem Expr.count_follows (depth : Nat) (e : Expr) :
    Follows depth (e.count s : Counting α Unit) (e.build s depth) := by
  induction e generalizing depth with
  | number pos text => exact (follows_lift _).nested
  | boolean pos value => exact (follows_lift _).nested
  | string pos text => exact (follows_lift _).nested
  | identifier pos name => exact (follows_lift _).nested
  | parenthesized pos inner ih => exact (ih (depth + 1)).nested
  | binary pos left right operator ihl ihr =>
    refine ((ihl (depth + 1)).bind fun _ => ?_).nested
    exact (ihr (depth + 1)).bind fun _ => follows_lift _
  | unsupported pos kind => exact follows_lift _
  | broken why => exact follows_lift _

theorem countName_follows (depth : Nat) (value : Option Expr) (name : String) :
    Follows depth (countName s value name : Counting α Unit) (bindName s depth value name) := by
  refine (follows_lift (.define name)).bind fun slot => ?_
  cases value with
  | none => exact follows_lift (pure ())
  | some e => exact (e.count_follows depth).bind fun _ => follows_lift _

mutual

theorem Pattern.count_follows (depth : Nat) (value : Option Expr) (p : Pattern) :
    Follows depth (p.count s value : Counting α Unit) (p.build s depth value) := by
  cases p with
  | identifier pos name =>
    simp only [Pattern.count, Pattern.build]
    refine ((follows_lift (.read name)).bind fun name => ?_).nested
    exact countName_follows (depth + 1) value name
  | array pos elements =>
    simp only [Pattern.count, Pattern.build]
    exact (Pattern.countAll_follows (depth + 1) value elements).nested
  | object pos properties =>
    simp only [Pattern.count, Pattern.build]
    refine (Follows.forM fun p _ => (follows_lift p.read).bind fun name => ?_).nested
    exact countName_follows (depth + 1) value name
  | unsupported pos kind => exact follows_lift _
  | broken why => exact follows_lift _

theorem Pattern.countAll_follows (depth : Nat) (value : Option Expr) (ps : List Pattern) :
    Follows depth (Pattern.countAll s value ps : Counting α Unit)
      (Pattern.buildAll s depth value ps) := by
  cases ps with
  | nil => exact follows_lift (pure ())
  | cons p ps =>
    refine (Pattern.count_follows depth value p).bind fun _ => ?_
    exact Pattern.countAll_follows depth value ps

end

mutual

/-- **Statements with a counter** do what statements at its depth do, and leave the counter as they
found it. -/
theorem Stmt.count_follows (depth : Nat) (t : Stmt) :
    Follows depth (t.count s : Counting α Unit) (t.build s depth) := by
  cases t with
  | expression pos value =>
    simp only [Stmt.count, Stmt.build]
    exact (value.count_follows (depth + 1)).nested
  | lexical pos kind declarators =>
    simp only [Stmt.count, Stmt.build]
    refine ((follows_lift (.read kind)).bind fun kind => ?_).nested
    have hbind : Follows (depth + 1)
        (declarators.forM fun d => d.target.count s d.value : Counting α Unit)
        (declarators.forM fun d => d.target.build s (depth + 1) d.value) :=
      Follows.forM fun d _ => d.target.count_follows (depth + 1) d.value
    by_cases hlet : kind ≠ "let"
    · rw [if_pos hlet, if_pos hlet]
      exact (follows_lift _).bind fun _ => hbind
    · rw [if_neg hlet, if_neg hlet]
      exact hbind
  | foreign pos kind =>
    simp only [Stmt.count, Stmt.build]
    exact (follows_lift _).nested
  | ifThen pos test body =>
    simp only [Stmt.count, Stmt.build]
    refine ((test.count_follows (depth + 1)).bind fun _ => ?_).nested
    refine (follows_lift (.emitJump .jumpIfFalse)).bind fun skip => ?_
    exact (Stmt.count_follows (depth + 1) body).bind fun _ => follows_lift _
  | ifElse pos test body alternative =>
    simp only [Stmt.count, Stmt.build]
    refine ((test.count_follows (depth + 1)).bind fun _ => ?_).nested
    refine (follows_lift (.emitJump .jumpIfFalse)).bind fun skip => ?_
    refine (Stmt.count_follows (depth + 1) body).bind fun _ => ?_
    refine (follows_lift (.emitJump .jump)).bind fun done => ?_
    refine (follows_lift (.patch skip)).bind fun _ => ?_
    exact (Stmt.count_follows (depth + 1) alternative).bind fun _ => follows_lift _
  | empty pos =>
    simp only [Stmt.count, Stmt.build]
    exact (follows_lift _).nested
  | block pos body =>
    simp only [Stmt.count, Stmt.build]
    exact (Stmt.countAll_follows (depth + 1) body).nested
  | unsupported pos kind => exact follows_lift _
  | broken why => exact follows_lift _

theorem Stmt.countAll_follows (depth : Nat) (ts : List Stmt) :
    Follows depth (Stmt.countAll s ts : Counting α Unit) (Stmt.buildAll s depth ts) := by
  cases ts with
  | nil => exact follows_lift (pure ())
  | cons t ts =>
    exact (Stmt.count_follows depth t).bind fun _ => Stmt.countAll_follows depth ts

end

/-! ### Statements one by one -/

/-- The steps of a statement of the outermost level. -/
def TopLevel.count (s : Settings) (t : TopLevel) : Counting α Unit := do
  lift (checkDamage t.damage)
  t.stmt.count s

theorem TopLevel.run_count (t : TopLevel) (p : Pass α) :
    (t.count s).run ⟨0, p⟩ = carry 0 ((t.steps s).run p) :=
  ((follows_lift (checkDamage t.damage)).bind fun _ => t.stmt.count_follows 0) p

namespace Counted

/-- The pass that builds nothing yet, at the outermost level. -/
def start (scope : Scope α) : Counted α := ⟨0, .start scope⟩

/-- Compile one statement.  If it is refused, what it built is undone and its error kept; the
counter is not touched. -/
def round (s : Settings) (c : Counted α) (t : TopLevel) :
    Except Breakdown (Option CompileError) × Counted α :=
  match (t.count s).run c with
  | .ok () q => (.ok none, q)
  | .error (.refused e) q =>
    (.ok (some e), { q with pass := (q.pass.restore c.pass).record (.skipped e) })
  | .error (.broken why) q => (.error why, q)

/-- Compile statements one by one, with one counter for all of them. -/
def compileStatements (s : Settings) (c : Counted α) (errors : List CompileError) :
    List TopLevel → Except Breakdown (List CompileError) × Counted α
  | [] => (.ok errors.reverse, c)
  | t :: rest =>
    match c.round s t with
    | (.ok error, next) => compileStatements s next (error.toList ++ errors) rest
    | (.error why, next) => (.error why, next)

/-- The states before each statement, as far as statements are reached. -/
def rounds (s : Settings) (c : Counted α) : List TopLevel → List (Counted α)
  | [] => []
  | t :: rest =>
    match c.round s t with
    | (.ok _, next) => c :: rounds s next rest
    | (.error _, _) => [c]

/-- **One statement**, from the counter at zero: it ends at zero, and what it leaves is what
compilation goes on with. -/
theorem round_zero (p : Pass α) (t : TopLevel) :
    ∃ r q, round s ⟨0, p⟩ t = (r, ⟨0, q⟩) ∧ ∀ errors rest,
      StackScript.compileStatements s p errors (t :: rest) =
        match r with
        | .ok error => StackScript.compileStatements s q (error.toList ++ errors) rest
        | .error why => (.error why, q) := by
  unfold round
  simp only [compileStatements_cons, TopLevel.run_count]
  cases (t.steps s).run p with
  | ok _ q => exact ⟨.ok none, q, rfl, fun _ _ => rfl⟩
  | error f q =>
    cases f with
    | refused e => exact ⟨.ok (some e), (q.restore p).record (.skipped e), rfl, fun _ _ => rfl⟩
    | broken why => exact ⟨.error why, q, rfl, fun _ _ => rfl⟩

/-- **All statements**: the same result, and the counter at zero. -/
theorem compileStatements_zero (ts : List TopLevel) (p : Pass α) (errors : List CompileError) :
    compileStatements s ⟨0, p⟩ errors ts =
      ((StackScript.compileStatements s p errors ts).1,
        ⟨0, (StackScript.compileStatements s p errors ts).2⟩) := by
  induction ts generalizing p errors with
  | nil => rfl
  | cons t ts ih =>
    obtain ⟨r, q, hround, hstep⟩ := round_zero (s := s) p t
    -- Both go on with the same pass, and the counter is where it was before the statement.
    rw [compileStatements, hround, hstep errors ts]
    cases r with
    | ok error => exact ih q _
    | error why => rfl

theorem depth_of_mem_rounds {ts : List TopLevel} {p : Pass α} :
    ∀ c ∈ rounds s ⟨0, p⟩ ts, c.depth = 0 := by
  induction ts generalizing p with
  | nil => simp [rounds]
  | cons t ts ih =>
    obtain ⟨r, q, hround, -⟩ := round_zero (s := s) p t
    rw [rounds, hround]
    cases r with
    | ok error => exact List.forall_mem_cons.2 ⟨rfl, ih⟩
    | error why => simp

/-- Every statement is reached unless one breaks down. -/
theorem length_rounds {ts : List TopLevel} {c : Counted α} {errors all : List CompileError}
    {last : Counted α} (h : compileStatements s c errors ts = (.ok all, last)) :
    (rounds s c ts).length = ts.length := by
  induction ts generalizing c errors with
  | nil => rfl
  | cons t ts ih =>
    rw [compileStatements] at h
    rw [rounds]
    cases hround : c.round s t with
    | mk r next =>
      rw [hround] at h
      cases r with
      | ok error => exact congrArg (· + 1) (ih h)
      | error why => cases h

end Counted

namespace Script

variable {script : Script} {scope : Scope α}

/-- Compile the statements of a script that can be compiled, with one counter for all of them. -/
def countEach (script : Script) (s : Settings) (scope : Scope α) :
    Outcome α (Except Breakdown Report) :=
  match Counted.compileStatements s (.start scope) [] script.body with
  | (.ok errors, c) =>
    let (program, p) := c.pass.finish s.name
    ⟨.ok ⟨program, errors⟩, p.scope, p.journal.toList⟩
  | (.error why, c) => ⟨.error why, c.pass.scope, c.pass.journal.toList⟩

/-- The states before each statement of a script, as far as statements are reached. -/
def rounds (script : Script) (s : Settings) (scope : Scope α) : List (Counted α) :=
  Counted.rounds s (.start scope) script.body

/-- **A counter gives the same** as depths handed down. -/
theorem countEach_eq (script : Script) (s : Settings) (scope : Scope α) :
    script.countEach s scope = script.compileEach s scope := by
  unfold countEach compileEach Counted.start
  rw [Counted.compileStatements_zero]
  cases compileStatements s (.start scope) [] script.body with
  | mk result p =>
    cases result with
    | ok errors => rfl
    | error why => rfl

theorem length_rounds_of_ok {report : Report} (h : (script.countEach s scope).result = .ok report) :
    (script.rounds s scope).length = script.body.length := by
  unfold countEach at h
  split at h
  · next errors c hrun => exact Counted.length_rounds hrun
  · cases h

/-- **The limit of nesting only cuts off.**  A higher limit changes nothing for a script that is not
refused for its depth, and as many levels as the tree has nodes are enough.  The same holds of
statements one by one if none is left out for its depth; one counter for all of them stands at zero
before each. -/
theorem depth_limit_only_cuts (source : ByteArray) (tree : SyntaxTree) (s : Settings)
    (scope : Scope α) {limit : Int} (h : s.maxDepth ≤ limit) :
    let script := Script.ofTree source tree
    (¬(script.compile s scope).TooDeep →
        script.compile (s.withDepth limit) scope = script.compile s scope) ∧
      (tree.size ≤ s.maxDepth → ¬(script.compile s scope).TooDeep) ∧
      ((∀ e ∈ script.refusals s scope, e.kind ≠ .nestingTooDeep) →
        script.compileEach (s.withDepth limit) scope = script.compileEach s scope) ∧
      (tree.size ≤ s.maxDepth → ∀ e ∈ script.refusals s scope, e.kind ≠ .nestingTooDeep) ∧
      (∀ report, (script.compileEach s scope).result = .ok report →
        report.errors = script.refusals s scope ∧
          (script.rounds s scope).length = script.body.length) ∧
      script.countEach s scope = script.compileEach s scope ∧
      ∀ c ∈ script.rounds s scope, c.depth = 0 := by
  intro script
  have hlevels : script.levels ≤ tree.size := levels_ofTree source tree
  refine ⟨compile_withDepth h, ?_, compileEach_withDepth h, ?_, ?_, countEach_eq script s scope,
    Counted.depth_of_mem_rounds⟩
  · intro hnodes
    exact not_tooDeep_of_levels (by omega)
  · intro hnodes
    exact refusals_of_levels script.body (.start scope) (by unfold levels at hlevels; omega)
  · intro report hreport
    exact ⟨errors_eq_refusals hreport, length_rounds_of_ok ((countEach_eq ..).symm ▸ hreport)⟩

namespace DeepTree

def mark (kind : String) (start : Nat) : SyntaxTree :=
  .node ⟨kind, start, start + 1, 0, start, false, false, false, none⟩ []

def empty (start : Nat) : SyntaxTree :=
  .node ⟨"empty_statement", start, start + 1, 0, start, true, false, false, none⟩ [mark ";" start]

/-- The tree of `{;};`. -/
def root : SyntaxTree :=
  .node ⟨"program", 0, 4, 0, 0, true, false, false, none⟩
    [.node ⟨"statement_block", 0, 3, 0, 0, true, false, false, none⟩
        [mark "\x7b" 0, empty 1, mark "\x7d" 2],
      empty 3]

/-- A block and an empty statement in it take two levels.  With one level the block is left out, and
the counter is back at zero for the statement behind it. -/
theorem empty_in_block_cut :
    let script := Script.ofTree "\x7b;\x7d;".toUTF8 root
    let scope : Scope Unit := .empty []
    (script.compile ⟨"main", 1, false⟩ scope).TooDeep ∧
      (script.rounds ⟨"main", 1, false⟩ scope).length = 2 ∧
      (∀ c ∈ script.rounds ⟨"main", 1, false⟩ scope, c.depth = 0) ∧
      root.size = 8 ∧ ¬(script.compile ⟨"main", 8, false⟩ scope).TooDeep ∧
      script.compile .standard scope = script.compile ⟨"main", 8, false⟩ scope := by
  intro script scope
  have hscript : script =
      ⟨none, [⟨none, .block ⟨1, 0⟩ [.empty ⟨1, 1⟩]⟩, ⟨none, .empty ⟨1, 3⟩⟩]⟩ := by
    with_unfolding_all rfl
  obtain ⟨-, -, -, -, -, -, hzero⟩ := depth_limit_only_cuts "\x7b;\x7d;".toUTF8 root
    ⟨"main", 1, false⟩ scope (Int.le_refl 1)
  obtain ⟨hsame, henough, -⟩ := depth_limit_only_cuts "\x7b;\x7d;".toUTF8 root
    ⟨"main", 8, false⟩ scope (by decide : (8 : Int) ≤ 200)
  have hfits : ¬(script.compile ⟨"main", 8, false⟩ scope).TooDeep := henough (by decide)
  refine ⟨?_, ?_, hzero, rfl, hfits, hsame hfits⟩
  · rw [hscript]
    exact ⟨.refused ⟨.tooDeep 1, ⟨1, 1⟩⟩, rfl, rfl⟩
  · rw [hscript]
    rfl

end DeepTree

end Script

end StackScript
