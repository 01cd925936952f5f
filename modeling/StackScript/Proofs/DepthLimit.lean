import StackScript.Compile

/-!
# The limit of nesting

Every construct costs one level, and the value of a declaration is charged inside its pattern, once
for each name.  The limit is compared with the level and used for nothing else:

* `Expr.levels`, `Pattern.levels`, `Stmt.levels` : how deep a construct goes;
* `Build.Cuts` : under two limits, steps do the same or those under the lower limit are cut off, and
  this does not happen if there are levels enough;
* `Stmt.build_cuts` : the steps of a statement are cut off in this sense only;
* `Script.compile_withDepth`, `Script.compileEach_withDepth` : hence a higher limit changes nothing
  for a script that is not refused for its depth.
-/

namespace StackScript

variable {α β γ : Type}

/-- The settings with another limit. -/
def Settings.withDepth (s : Settings) (limit : Int) : Settings := { s with maxDepth := limit }

/-- The fault of a script that nests too deep. -/
def Fault.TooDeep : Fault → Prop
  | .refused e => e.kind = .nestingTooDeep
  | .broken _ => False

/-! ### Levels -/

/-- Levels of an expression.  What is not supported is refused before it costs any. -/
def Expr.levels : Expr → Nat
  | .number .. | .boolean .. | .string .. | .identifier .. => 1
  | .parenthesized _ inner => inner.levels + 1
  | .binary _ left right _ => max left.levels right.levels + 1
  | .unsupported .. | .broken _ => 0

mutual

/-- Levels of a pattern, with those of the value that is bound inside it. -/
def Pattern.levels (value : Nat) : Pattern → Nat
  | .identifier .. | .object .. => value + 1
  | .array _ elements => Pattern.levelsAll value elements + 1
  | .unsupported .. | .broken _ => 0

/-- Levels of several patterns. -/
def Pattern.levelsAll (value : Nat) : List Pattern → Nat
  | [] => 0
  | p :: ps => max (p.levels value) (Pattern.levelsAll value ps)

end

/-- Levels of a value, if there is one. -/
def Expr.levels? (value : Option Expr) : Nat := (value.map Expr.levels).getD 0

/-- Levels of several declarators. -/
def Declarator.levelsAll : List Declarator → Nat
  | [] => 0
  | d :: ds => max (d.target.levels (Expr.levels? d.value)) (Declarator.levelsAll ds)

mutual

/-- Levels of a statement. -/
def Stmt.levels : Stmt → Nat
  | .expression _ value => value.levels + 1
  | .lexical _ _ declarators => Declarator.levelsAll declarators + 1
  | .foreign .. | .empty _ => 1
  | .ifThen _ test body => max test.levels body.levels + 1
  | .ifElse _ test body alternative =>
    max test.levels (max body.levels alternative.levels) + 1
  | .block _ body => Stmt.levelsAll body + 1
  | .unsupported .. | .broken _ => 0

/-- Levels of several statements. -/
def Stmt.levelsAll : List Stmt → Nat
  | [] => 0
  | t :: ts => max t.levels (Stmt.levelsAll ts)

end

/-! ### Steps under two limits -/

namespace Build

/-- Steps that are never refused for their depth. -/
def Uncut (m : Build α β) : Prop := ∀ p f q, m.run p = .error f q → ¬f.TooDeep

/-- Under a lower limit, steps do the same or are refused for their depth.  They are not if their
levels fit. -/
structure Cuts (fits : Prop) (m m' : Build α β) : Prop where
  agrees : ∀ p, m'.run p = m.run p ∨ ∃ f q, m.run p = .error f q ∧ f.TooDeep
  uncut : fits → m.Uncut

variable {m m' : Build α β} {fits : Prop}

theorem uncut_of_ok (h : ∀ p, ∃ b q, m.run p = .ok b q) : m.Uncut := by
  intro p f q hrun
  obtain ⟨b, r, hok⟩ := h p
  rw [hok] at hrun
  cases hrun

theorem uncut_skip : (pure () : Build α Unit).Uncut := uncut_of_ok fun p => ⟨(), p, rfl⟩

theorem Uncut.cuts (h : m.Uncut) : Cuts fits m m := ⟨fun _ => .inl rfl, fun _ => h⟩

theorem Cuts.mono {fits' : Prop} (h : Cuts fits m m') (himp : fits' → fits) : Cuts fits' m m' :=
  ⟨h.agrees, fun hfits => h.uncut (himp hfits)⟩

theorem Uncut.bind {k : β → Build α γ} (hm : m.Uncut) (hk : ∀ b, (k b).Uncut) :
    (m >>= k).Uncut := by
  intro p f q hrun
  rw [EStateM.run_bind] at hrun
  cases hmp : m.run p with
  | ok b r =>
    rw [hmp] at hrun
    exact hk b r f q hrun
  | error g r =>
    rw [hmp] at hrun
    cases hrun
    exact hm p f q hmp

/-- One step after the other. -/
theorem Cuts.bind {k k' : β → Build α γ} (hm : Cuts fits m m') (hk : ∀ b, Cuts fits (k b) (k' b)) :
    Cuts fits (m >>= k) (m' >>= k') := by
  refine ⟨?_, fun hfits => (hm.uncut hfits).bind fun b => (hk b).uncut hfits⟩
  intro p
  rw [EStateM.run_bind, EStateM.run_bind]
  rcases hm.agrees p with hsame | ⟨f, q, hrun, hdeep⟩
  · rw [hsame]
    cases m.run p with
    | ok b q => exact (hk b).agrees q
    | error f q => exact .inl rfl
  · -- Cut off in the first step, the second one is not reached.
    rw [hrun]
    exact .inr ⟨f, q, rfl, hdeep⟩

theorem Cuts.forM {δ : Type} {l : List δ} {k k' : δ → Build α PUnit}
    (h : ∀ x ∈ l, Cuts fits (k x) (k' x)) : Cuts fits (l.forM k) (l.forM k') := by
  induction l with
  | nil => exact uncut_skip.cuts
  | cons x l ih =>
    obtain ⟨hx, hl⟩ := List.forall_mem_cons.1 h
    change Cuts fits (k x >>= fun _ => l.forM k) (k' x >>= fun _ => l.forM k')
    exact hx.bind fun _ => ih hl

theorem uncut_refuse {pos : Position} {cause : Cause} (h : cause.kind ≠ .nestingTooDeep) :
    (refuse pos cause : Build α β).Uncut := by
  intro p f q hrun
  cases hrun
  exact h

theorem uncut_breakDown (why : Breakdown) : (breakDown why : Build α β).Uncut := by
  intro p f q hrun
  cases hrun
  exact id

theorem uncut_read (l : Lexeme) : (read l : Build α String).Uncut := by
  cases l with
  | ok text => exact uncut_of_ok fun p => ⟨text, p, rfl⟩
  | error why => exact uncut_breakDown why

theorem uncut_emit (i : Instruction) : (emit i : Build α Unit).Uncut :=
  uncut_of_ok fun p => ⟨(), p.emit i, rfl⟩

theorem uncut_emitJump (jump : Int → Instruction) : (emitJump jump : Build α Nat).Uncut :=
  uncut_of_ok fun p => ⟨_, p.emit (jump pendingTarget), rfl⟩

theorem uncut_patch (position : Nat) : (patch position : Build α Unit).Uncut :=
  uncut_of_ok fun p => ⟨(), p.patch position, rfl⟩

/-- Going one level deeper. -/
theorem cuts_enter {s : Settings} {limit : Int} (h : s.maxDepth ≤ limit) {depth : Nat}
    (pos : Position) (hfits : fits → depth + 1 ≤ s.maxDepth) :
    Cuts fits (enter s depth pos : Build α Unit) (enter (s.withDepth limit) depth pos) := by
  have hlimit : (s.withDepth limit).maxDepth = limit := rfl
  unfold enter
  rw [hlimit]
  by_cases hcut : s.maxDepth < depth + 1
  · rw [if_pos hcut]
    refine ⟨fun p => .inr ⟨.refused ⟨.tooDeep s.maxDepth, pos⟩, p, rfl, rfl⟩, fun henough => ?_⟩
    have := hfits henough
    omega
  · rw [if_neg hcut, if_neg (by omega)]
    exact uncut_skip.cuts

end Build

/-! ### Constructs -/

open Build

theorem uncut_pushConstant (c : Constant) : (pushConstant c : Build α Unit).Uncut :=
  uncut_of_ok fun p => ⟨(), p.pushConstant c, rfl⟩

theorem uncut_pushNumber (pos : Position) (text : String) :
    (pushNumber pos text : Build α Unit).Uncut := by
  unfold pushNumber
  split
  · exact uncut_refuse nofun
  · split
    · exact uncut_pushConstant _
    · exact uncut_refuse nofun

theorem uncut_pushString (pos : Position) (text : String) :
    (pushString pos text : Build α Unit).Uncut := by
  unfold pushString
  split
  · exact uncut_pushConstant _
  · exact uncut_refuse nofun
  · exact uncut_refuse nofun
  · exact uncut_breakDown _

theorem uncut_pushVariable (pos : Position) (name : String) :
    (pushVariable pos name : Build α Unit).Uncut := by
  have hget : (get : Build α (Pass α)).Uncut := uncut_of_ok fun p => ⟨p, p, rfl⟩
  unfold pushVariable
  refine hget.bind fun p => ?_
  dsimp only
  split
  · exact uncut_emit _
  · split
    · exact uncut_refuse nofun
    · exact uncut_refuse nofun

/-- The sign of an operation is looked at last. -/
theorem uncut_operator (pos : Position) (sign : String) :
    (match binaryInstruction? sign with
      | some i => emit i
      | none => refuse pos (.operator sign) : Build α Unit).Uncut := by
  split
  · exact uncut_emit _
  · exact uncut_refuse nofun

theorem Property.uncut_read (p : Property) : (p.read : Build α String).Uncut := by
  cases p with
  | shorthand name => exact Build.uncut_read name
  | pair key =>
    cases key with
    | name text => exact Build.uncut_read text
    | computed pos => exact uncut_refuse nofun
    | unsupported pos kind => exact uncut_refuse nofun
    | broken why => exact uncut_breakDown why
  | unsupported pos kind => exact uncut_refuse nofun

section Limits

variable {s : Settings} {limit : Int}

theorem Expr.build_cuts (h : s.maxDepth ≤ limit) (depth : Nat) (e : Expr) :
    Cuts (depth + e.levels ≤ s.maxDepth) (e.build s depth : Build α Unit)
      (e.build (s.withDepth limit) depth) := by
  induction e generalizing depth with
  | number pos text =>
    exact (cuts_enter h pos id).bind fun _ =>
      ((uncut_read text).bind fun text => uncut_pushNumber pos text).cuts
  | boolean pos value =>
    exact (cuts_enter h pos id).bind fun _ => (uncut_pushConstant _).cuts
  | string pos text =>
    exact (cuts_enter h pos id).bind fun _ =>
      ((uncut_read text).bind fun text => uncut_pushString pos text).cuts
  | identifier pos name =>
    exact (cuts_enter h pos id).bind fun _ =>
      ((uncut_read name).bind fun name => uncut_pushVariable pos name).cuts
  | parenthesized pos inner ih =>
    simp only [levels]
    exact (cuts_enter h pos (by omega)).bind fun _ => (ih (depth + 1)).mono (by omega)
  | binary pos left right operator ihl ihr =>
    simp only [levels]
    refine (cuts_enter h pos (by omega)).bind fun _ => ?_
    refine ((ihl (depth + 1)).mono (by omega)).bind fun _ => ?_
    refine ((ihr (depth + 1)).mono (by omega)).bind fun _ => ?_
    exact ((uncut_read operator).bind fun sign => uncut_operator pos sign).cuts
  | unsupported pos kind =>
    have hrefuse : (refuse pos (.expression kind) : Build α Unit).Uncut := uncut_refuse nofun
    exact hrefuse.cuts
  | broken why => exact (uncut_breakDown why).cuts

theorem bindName_cuts (h : s.maxDepth ≤ limit) (depth : Nat) (value : Option Expr)
    (name : String) :
    Cuts (depth + Expr.levels? value ≤ s.maxDepth) (bindName s depth value name : Build α Unit)
      (bindName (s.withDepth limit) depth value name) := by
  have hdefine : (Build.define name : Build α Nat).Uncut :=
    uncut_of_ok fun p => ⟨_, (p.define name).2, rfl⟩
  refine hdefine.cuts.bind fun slot => ?_
  cases value with
  | none => exact uncut_skip.cuts
  | some e => exact (e.build_cuts h depth).bind fun _ => (uncut_emit _).cuts

mutual

theorem Pattern.build_cuts (h : s.maxDepth ≤ limit) (depth : Nat) (value : Option Expr)
    (p : Pattern) :
    Cuts (depth + p.levels (Expr.levels? value) ≤ s.maxDepth)
      (p.build s depth value : Build α Unit) (p.build (s.withDepth limit) depth value) := by
  cases p with
  | identifier pos name =>
    simp only [levels, Pattern.build]
    refine (cuts_enter h pos (by omega)).bind fun _ => ?_
    refine (Build.uncut_read name).cuts.bind fun name => ?_
    exact (bindName_cuts h (depth + 1) value name).mono (by omega)
  | array pos elements =>
    simp only [levels, Pattern.build]
    refine (cuts_enter h pos (by omega)).bind fun _ => ?_
    exact (Pattern.buildAll_cuts h (depth + 1) value elements).mono (by omega)
  | object pos properties =>
    simp only [levels, Pattern.build]
    refine (cuts_enter h pos (by omega)).bind fun _ => Cuts.forM fun p _ => ?_
    refine p.uncut_read.cuts.bind fun name => ?_
    exact (bindName_cuts h (depth + 1) value name).mono (by omega)
  | unsupported pos kind =>
    have hrefuse : (refuse pos (.pattern kind) : Build α Unit).Uncut := uncut_refuse nofun
    exact hrefuse.cuts
  | broken why => exact (uncut_breakDown why).cuts

theorem Pattern.buildAll_cuts (h : s.maxDepth ≤ limit) (depth : Nat) (value : Option Expr)
    (ps : List Pattern) :
    Cuts (depth + Pattern.levelsAll (Expr.levels? value) ps ≤ s.maxDepth)
      (Pattern.buildAll s depth value ps : Build α Unit)
      (Pattern.buildAll (s.withDepth limit) depth value ps) := by
  cases ps with
  | nil => exact uncut_skip.cuts
  | cons p ps =>
    simp only [levelsAll, Pattern.buildAll]
    refine ((Pattern.build_cuts h depth value p).mono (by omega)).bind fun _ => ?_
    exact (Pattern.buildAll_cuts h depth value ps).mono (by omega)

end

theorem Declarator.build_cuts (h : s.maxDepth ≤ limit) (depth : Nat) (ds : List Declarator) :
    Cuts (depth + Declarator.levelsAll ds ≤ s.maxDepth)
      (ds.forM fun d => d.target.build s depth d.value : Build α Unit)
      (ds.forM fun d => d.target.build (s.withDepth limit) depth d.value) := by
  induction ds with
  | nil => exact uncut_skip.cuts
  | cons d ds ih =>
    simp only [levelsAll]
    refine ((d.target.build_cuts h depth d.value).mono (by omega)).bind fun _ => ?_
    exact ih.mono (by omega)

mutual

/-- **The steps of a statement** are the same under a higher limit, unless they are cut off. -/
theorem Stmt.build_cuts (h : s.maxDepth ≤ limit) (depth : Nat) (t : Stmt) :
    Cuts (depth + t.levels ≤ s.maxDepth) (t.build s depth : Build α Unit)
      (t.build (s.withDepth limit) depth) := by
  cases t with
  | expression pos value =>
    simp only [levels, Stmt.build]
    refine (cuts_enter h pos (by omega)).bind fun _ => ?_
    exact (value.build_cuts h (depth + 1)).mono (by omega)
  | lexical pos kind declarators =>
    simp only [levels, Stmt.build]
    refine (cuts_enter h pos (by omega)).bind fun _ => ?_
    refine (Build.uncut_read kind).cuts.bind fun kind => ?_
    have hbuild := Declarator.build_cuts (α := α) h (depth + 1) declarators
    have hrefuse : (refuse pos (.declaration kind) : Build α PUnit).Uncut := uncut_refuse nofun
    by_cases hlet : kind ≠ "let"
    · rw [if_pos hlet, if_pos hlet]
      exact hrefuse.cuts.bind fun _ => hbuild.mono (by omega)
    · rw [if_neg hlet, if_neg hlet]
      exact hbuild.mono (by omega)
  | foreign pos kind =>
    simp only [levels, Stmt.build]
    have hrefuse : (refuse pos (.declaration kind) : Build α Unit).Uncut := uncut_refuse nofun
    exact (cuts_enter h pos (by omega)).bind fun _ => hrefuse.cuts
  | ifThen pos test body =>
    simp only [levels, Stmt.build]
    refine (cuts_enter h pos (by omega)).bind fun _ => ?_
    refine ((test.build_cuts h (depth + 1)).mono (by omega)).bind fun _ => ?_
    refine (uncut_emitJump _).cuts.bind fun skip => ?_
    refine ((Stmt.build_cuts h (depth + 1) body).mono (by omega)).bind fun _ => ?_
    refine (uncut_emitJump _).cuts.bind fun done => ?_
    exact ((uncut_patch skip).bind fun _ => uncut_patch done).cuts
  | ifElse pos test body alternative =>
    simp only [levels, Stmt.build]
    refine (cuts_enter h pos (by omega)).bind fun _ => ?_
    refine ((test.build_cuts h (depth + 1)).mono (by omega)).bind fun _ => ?_
    refine (uncut_emitJump _).cuts.bind fun skip => ?_
    refine ((Stmt.build_cuts h (depth + 1) body).mono (by omega)).bind fun _ => ?_
    refine (uncut_emitJump _).cuts.bind fun done => ?_
    refine (uncut_patch skip).cuts.bind fun _ => ?_
    refine ((Stmt.build_cuts h (depth + 1) alternative).mono (by omega)).bind fun _ => ?_
    exact (uncut_patch done).cuts
  | empty pos =>
    simp only [levels, Stmt.build]
    refine (cuts_enter h pos (by omega)).bind fun _ => ?_
    have hhalts : (s.withDepth limit).emptyHalts = s.emptyHalts := rfl
    rw [hhalts]
    split
    · exact (uncut_emit _).cuts
    · exact uncut_skip.cuts
  | block pos body =>
    simp only [levels, Stmt.build]
    refine (cuts_enter h pos (by omega)).bind fun _ => ?_
    exact (Stmt.buildAll_cuts h (depth + 1) body).mono (by omega)
  | unsupported pos kind =>
    have hrefuse : (refuse pos (.statement kind) : Build α Unit).Uncut := uncut_refuse nofun
    exact hrefuse.cuts
  | broken why => exact (uncut_breakDown why).cuts

theorem Stmt.buildAll_cuts (h : s.maxDepth ≤ limit) (depth : Nat) (ts : List Stmt) :
    Cuts (depth + Stmt.levelsAll ts ≤ s.maxDepth) (Stmt.buildAll s depth ts : Build α Unit)
      (Stmt.buildAll (s.withDepth limit) depth ts) := by
  cases ts with
  | nil => exact uncut_skip.cuts
  | cons t ts =>
    simp only [levelsAll, Stmt.buildAll]
    refine ((Stmt.build_cuts h depth t).mono (by omega)).bind fun _ => ?_
    exact (Stmt.buildAll_cuts h depth ts).mono (by omega)

end

/-! ### Scripts -/

theorem uncut_checkDamage (d : Option Damage) : (checkDamage d : Build α Unit).Uncut := by
  cases d with
  | none => exact uncut_skip
  | some d => exact (Build.uncut_read d.text).bind fun text => uncut_refuse nofun

/-- The script is refused because it nests too deep. -/
def Outcome.TooDeep (o : Outcome α (Except Fault Program)) : Prop :=
  ∃ f, o.result = .error f ∧ f.TooDeep

namespace Script

variable {script : Script} {scope : Scope α}

/-- Levels of a script. -/
def levels (script : Script) : Nat := Stmt.levelsAll (script.body.map TopLevel.stmt)

theorem steps_cuts (h : s.maxDepth ≤ limit) (script : Script) :
    Cuts (script.levels ≤ s.maxDepth)
      (do
        checkDamage script.damage
        Stmt.buildAll s 0 (script.body.map TopLevel.stmt) : Build α Unit)
      (do
        checkDamage script.damage
        Stmt.buildAll (s.withDepth limit) 0 (script.body.map TopLevel.stmt)) := by
  refine (uncut_checkDamage script.damage).cuts.bind fun _ => ?_
  exact (Stmt.buildAll_cuts h 0 _).mono (by simp [levels])

/-- **A higher limit changes nothing** for a script that is not refused for its depth. -/
theorem compile_withDepth (h : s.maxDepth ≤ limit) (hdeep : ¬(script.compile s scope).TooDeep) :
    script.compile (s.withDepth limit) scope = script.compile s scope := by
  have hname : (s.withDepth limit).name = s.name := rfl
  rcases (steps_cuts h script).agrees (.start scope) with hsame | ⟨f, q, hrun, hf⟩
  · unfold compile
    dsimp only
    rw [hsame, hname]
  · refine absurd ?_ hdeep
    cases f with
    | refused e => exact ⟨_, by simp only [compile, hrun], hf⟩
    | broken why => exact hf.elim

/-- A script is not refused for its depth if its levels are within the limit. -/
theorem not_tooDeep_of_levels (hfits : script.levels ≤ s.maxDepth) :
    ¬(script.compile s scope).TooDeep := by
  rintro ⟨f, hresult, hf⟩
  have huncut := (steps_cuts (Int.le_refl s.maxDepth) script).uncut hfits (.start scope)
  unfold compile at hresult
  dsimp only at hresult
  split at hresult
  · cases hresult
  · next e q hrun =>
    cases hresult
    exact huncut _ _ hrun hf
  · cases hresult
    exact hf

end Script

/-! ### Statements one by one -/

namespace TopLevel

/-- The steps of a statement of the outermost level. -/
def steps (s : Settings) (t : TopLevel) : Build α Unit := do
  checkDamage t.damage
  t.stmt.build s 0

/-- The errors of the statements that are left out, until one breaks down. -/
def refusals (s : Settings) : Pass α → List TopLevel → List CompileError
  | _, [] => []
  | p, t :: rest =>
    match (t.steps s).run p with
    | .ok () q => refusals s q rest
    | .error (.refused e) q => e :: refusals s ((q.restore p).record (.skipped e)) rest
    | .error (.broken _) _ => []

theorem steps_cuts (h : s.maxDepth ≤ limit) (t : TopLevel) :
    Cuts (t.stmt.levels ≤ s.maxDepth) (t.steps s : Build α Unit) (t.steps (s.withDepth limit)) := by
  refine (uncut_checkDamage t.damage).cuts.bind fun _ => ?_
  exact (t.stmt.build_cuts h 0).mono (by simp)

end TopLevel

open TopLevel

theorem compileStatements_cons (s : Settings) (p : Pass α) (errors : List CompileError)
    (t : TopLevel) (rest : List TopLevel) :
    compileStatements s p errors (t :: rest) =
      match (t.steps s).run p with
      | .ok () q => compileStatements s q errors rest
      | .error (.refused e) q =>
        compileStatements s ((q.restore p).record (.skipped e)) (e :: errors) rest
      | .error (.broken why) q => (.error why, q) := rfl

theorem compileStatements_withDepth (h : s.maxDepth ≤ limit) (ts : List TopLevel) (p : Pass α)
    (errors : List CompileError) (hnone : ∀ e ∈ refusals s p ts, e.kind ≠ .nestingTooDeep) :
    compileStatements (s.withDepth limit) p errors ts = compileStatements s p errors ts := by
  induction ts generalizing p errors with
  | nil => rfl
  | cons t ts ih =>
    rw [compileStatements_cons, compileStatements_cons]
    rw [refusals] at hnone
    rcases (steps_cuts h t).agrees p with hsame | ⟨f, q, hrun, hf⟩
    · rw [hsame]
      cases hrun : (t.steps s).run p with
      | ok _ q =>
        rw [hrun] at hnone
        exact ih q errors hnone
      | error f q =>
        rw [hrun] at hnone
        cases f with
        | refused e => exact ih _ _ (List.forall_mem_cons.1 hnone).2
        | broken why => rfl
    · -- A statement that is cut off is among those left out.
      rw [hrun] at hnone
      cases f with
      | refused e => exact absurd hf (List.forall_mem_cons.1 hnone).1
      | broken why => exact hf.elim

/-- The errors of a report are those of the statements left out. -/
theorem eq_refusals_of_report (ts : List TopLevel) (p : Pass α) (errors : List CompileError)
    {all : List CompileError} {q : Pass α} (h : compileStatements s p errors ts = (.ok all, q)) :
    all = errors.reverse ++ refusals s p ts := by
  induction ts generalizing p errors with
  | nil =>
    cases h
    simp [refusals]
  | cons t ts ih =>
    rw [compileStatements_cons] at h
    rw [refusals]
    cases hrun : (t.steps s).run p with
    | ok _ r =>
      rw [hrun] at h
      exact ih r errors h
    | error f r =>
      rw [hrun] at h
      cases f with
      | refused e => simpa using ih _ _ h
      | broken why => cases h

theorem refusals_of_levels (ts : List TopLevel) (p : Pass α)
    (hfits : Stmt.levelsAll (ts.map TopLevel.stmt) ≤ s.maxDepth) :
    ∀ e ∈ refusals s p ts, e.kind ≠ .nestingTooDeep := by
  induction ts generalizing p with
  | nil => simp [refusals]
  | cons t ts ih =>
    simp only [List.map_cons, Stmt.levelsAll] at hfits
    -- Only the lower of the two limits matters here, so both are the same.
    have huncut := (steps_cuts (Int.le_refl s.maxDepth) t).uncut (by omega) p
    rw [refusals]
    cases hrun : (t.steps s).run p with
    | ok _ q => exact ih q (by omega)
    | error f q =>
      cases f with
      | refused e => exact List.forall_mem_cons.2 ⟨huncut _ _ hrun, ih _ (by omega)⟩
      | broken why => simp

namespace Script

variable {script : Script} {scope : Scope α}

/-- The errors of the statements that are left out of a script, until one breaks down. -/
def refusals (script : Script) (s : Settings) (scope : Scope α) : List CompileError :=
  TopLevel.refusals s (.start scope) script.body

/-- A higher limit changes nothing if no statement is left out for its depth. -/
theorem compileEach_withDepth (h : s.maxDepth ≤ limit)
    (hnone : ∀ e ∈ script.refusals s scope, e.kind ≠ .nestingTooDeep) :
    script.compileEach (s.withDepth limit) scope = script.compileEach s scope := by
  have hname : (s.withDepth limit).name = s.name := rfl
  unfold compileEach
  rw [compileStatements_withDepth h script.body (.start scope) [] hnone, hname]

theorem errors_eq_refusals {report : Report}
    (h : (script.compileEach s scope).result = .ok report) :
    report.errors = script.refusals s scope := by
  unfold compileEach at h
  split at h
  · next errors q hrun =>
    cases h
    exact eq_refusals_of_report script.body (.start scope) [] hrun
  · cases h

end Script

end Limits

end StackScript
