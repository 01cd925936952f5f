import StackScript.Proofs.PassPlan
import StackScript.Proofs.PlanUses

/-!
# Leaving out refused statements

`Script.compileEach` goes on behind a statement that is refused.  By then the statement may have
left half of its code, constants and names behind, all of which is cut off again.  Nothing of it
can be seen afterwards: the result is that of compiling the other statements alone.

* `TopLevel.attempts` : the statements compiled one by one, each as a script of its own, over one
  scope.  This says which of them are kept and what is wrong with the others, without any recovery;
* `Pass.Completes.of_restore` : a pass that has returned to an earlier state goes on from there as
  the earlier pass would have;
* `compileStatements_induction` : what is kept by carrying out a statement and by undoing one is kept
  by a run over statements;
* `compileStatements_cases` : what such a run leads to;
* `Script.compileEach_eq_compile_survivors` : recovery equals compiling the survivors.
-/

namespace StackScript

variable {α : Type}

/-! ### Statements on their own -/

/-- A statement as a script of its own. -/
def TopLevel.alone (t : TopLevel) : Script := ⟨t.damage, [t]⟩

/-- A statement, and what comes of compiling it. -/
structure Attempt where
  stmt : TopLevel
  result : Except Fault Program

namespace Attempt

/-- The statement, if it can be compiled. -/
def kept? (x : Attempt) : Option TopLevel :=
  match x.result with
  | .ok _ => some x.stmt
  | .error _ => none

/-- The error, if the statement is refused. -/
def error? (x : Attempt) : Option CompileError :=
  match x.result with
  | .error (.refused e) => some e
  | _ => none

/-- Compiling the statement breaks down. -/
def Breaks (x : Attempt) : Prop := ∃ why, x.result = .error (.broken why)

end Attempt

/-- The statements compiled one by one, each in the scope that the ones before it leave. -/
def TopLevel.attempts (s : Settings) : Scope α → List TopLevel → List Attempt
  | _, [] => []
  | scope, t :: ts =>
    let outcome := t.alone.compile s scope
    ⟨t, outcome.result⟩ :: TopLevel.attempts s outcome.scope ts

/-- The script of those statements that can be compiled. -/
def Script.survivors (s : Settings) (scope : Scope α) (script : Script) : Script :=
  ⟨none, (TopLevel.attempts s scope script.body).filterMap Attempt.kept?⟩

/-- The statements that cannot be compiled. -/
def Script.dropped (s : Settings) (scope : Scope α) (script : Script) : List Attempt :=
  (TopLevel.attempts s scope script.body).filter fun x => x.kept?.isNone

namespace TopLevel

variable {s : Settings} {scope : Scope α} {t : TopLevel}

theorem map_stmt_attempts (s : Settings) (scope : Scope α) (ts : List TopLevel) :
    (attempts s scope ts).map Attempt.stmt = ts := by
  induction ts generalizing scope with
  | nil => rfl
  | cons t ts ih => simp [attempts, ih]

/-- The plan of a statement of the outermost level. -/
def plan (s : Settings) (scope : Scope α) (t : TopLevel) : Planned := do
  intact t.damage
  t.stmt.plan s 0 scope

theorem steps_meets (s : Settings) (t : TopLevel) :
    Build.Meets (α := α) (do
        checkDamage t.damage
        t.stmt.build s 0)
      (fun scope => t.plan s scope) t.stmt.names := by
  rw [checkDamage_eq]
  exact .decide fun _ _ => Stmt.build_meets s 0 t.stmt

theorem plan_alone (s : Settings) (scope : Scope α) (t : TopLevel) :
    t.alone.plan s scope = Planned.join (t.plan s scope) (.ok .skip) := by
  simp only [Script.plan, alone, Script.stmts, List.map_cons, List.map_nil, Stmt.planAll, plan]
  cases intact t.damage <;> rfl

theorem names_alone (t : TopLevel) : t.alone.names = t.stmt.names := by
  simp [Script.names, Script.stmts, alone, Stmt.namesAll]

theorem attempts_of_plan {a : Plan} (ts : List TopLevel) (h : t.plan s scope = .ok a) :
    ∃ program, attempts s scope (t :: ts) =
      ⟨t, .ok program⟩ :: attempts s (scope.defineAll t.stmt.names) ts := by
  obtain ⟨hresult, hscope⟩ := Script.compile_of_plan (by rw [plan_alone, h]; rfl)
  exact ⟨_, by rw [attempts, hresult, hscope, names_alone]⟩

theorem attempts_of_refused {e : CompileError} (ts : List TopLevel) (hscope : scope.Level)
    (h : t.plan s scope = .error (.refused e)) :
    attempts s scope (t :: ts) = ⟨t, .error (.refused e)⟩ :: attempts s scope ts := by
  obtain ⟨hresult, hkeeps⟩ := Script.compile_of_refused (by rw [plan_alone, h]; rfl)
  rw [attempts, hresult, hkeeps hscope]

theorem attempts_of_broken {why : Breakdown} (ts : List TopLevel)
    (h : t.plan s scope = .error (.broken why)) :
    ∃ scope', attempts s scope (t :: ts) =
      ⟨t, .error (.broken why)⟩ :: attempts (α := α) s scope' ts := by
  obtain ⟨hresult, -⟩ := Script.compile_of_broken (by rw [plan_alone, h]; rfl)
  exact ⟨_, by rw [attempts, hresult]⟩

theorem sound_of_plan {ts : List TopLevel} {a : Plan} (h : t.plan s scope = .ok a)
    (hts : ∀ x ∈ attempts s (scope.defineAll t.stmt.names) ts, ¬x.Breaks) :
    ∀ x ∈ attempts s scope (t :: ts), ¬x.Breaks := by
  obtain ⟨program, hattempts⟩ := attempts_of_plan ts h
  rw [hattempts]
  exact List.forall_mem_cons.2 ⟨by simp [Attempt.Breaks], hts⟩

theorem sound_of_refused {ts : List TopLevel} {e : CompileError} (hscope : scope.Level)
    (h : t.plan s scope = .error (.refused e))
    (hts : ∀ x ∈ attempts s scope ts, ¬x.Breaks) :
    ∀ x ∈ attempts s scope (t :: ts), ¬x.Breaks := by
  rw [attempts_of_refused ts hscope h]
  exact List.forall_mem_cons.2 ⟨by simp [Attempt.Breaks], hts⟩

end TopLevel

/-! ### Returning to an earlier state -/

namespace Pass

@[simp] theorem code_record (p : Pass α) (e : Entry) : (p.record e).code = p.code := rfl

@[simp] theorem constants_record (p : Pass α) (e : Entry) :
    (p.record e).constants = p.constants := rfl

@[simp] theorem pool_record (p : Pass α) (e : Entry) : (p.record e).pool = p.pool := rfl

@[simp] theorem scope_record (p : Pass α) (e : Entry) : (p.record e).scope = p.scope := rfl

theorem code_restore (p q : Pass α) : (q.restore p).code = q.code.take p.code.length := by
  simp [restore, code, Assembler.truncate, Assembler.toList, Assembler.size]

theorem constants_restore (p q : Pass α) :
    (q.restore p).constants = q.constants.take p.constants.length := by
  simp [restore, constants, Pool.toList_truncate, Pool.size_eq_length]

variable {p q r : Pass α}

theorem Extends.code_restore_eq (h : p.Extends q) : (q.restore p).code = p.code := by
  obtain ⟨more, hmore⟩ := h.code
  rw [code_restore, ← hmore, List.take_left]

theorem Extends.constants_restore_eq (h : p.Extends q) :
    (q.restore p).constants = p.constants := by
  obtain ⟨more, hmore⟩ := h.constants
  rw [constants_restore, ← hmore, List.take_left]

theorem Extends.indexed_restore (h : p.Extends q) : (q.restore p).pool.Indexed :=
  h.indexed.truncate _

theorem Extends.sameNames_restore (h : p.Extends q) : (q.restore p).scope.SameNames p.scope := by
  obtain ⟨names, hnames⟩ := h.scope
  rw [restore, hnames]
  exact p.scope.sameNames_rollback names

theorem Extends.scope_restore_eq (h : p.Extends q) (hp : p.scope.Level) :
    (q.restore p).scope = p.scope := by
  obtain ⟨names, hnames⟩ := h.scope
  rw [restore, hnames, Scope.rollback_defineAll hp]

theorem Adds.of_restore {a : Plan} {e : Entry} (h : p.Extends q)
    (h' : ((q.restore p).record e).Adds a r) : p.Adds a r := by
  constructor
  · simpa [h.code_restore_eq, h.constants_restore_eq] using h'.code
  · simpa [h.constants_restore_eq] using h'.constants

/-- **A pass that has returned to an earlier state** goes on as the earlier pass would have. -/
theorem Completes.of_restore {a : Plan} {names : List String} {e : Entry} (h : p.Extends q)
    (hp : p.scope.Level) (h' : ((q.restore p).record e).Completes a names r) :
    p.Completes a names r := by
  refine ⟨.of_restore h h'.toAdds, h'.indexed, ?_⟩
  simpa [h.scope_restore_eq hp] using h'.scope

theorem Extends.of_restore {e : Entry} (h : p.Extends q) (hp : p.scope.Level)
    (h' : ((q.restore p).record e).Extends r) : p.Extends r := by
  refine ⟨?_, ?_, h'.indexed, ?_⟩
  · simpa [h.code_restore_eq] using h'.code
  · simpa [h.constants_restore_eq] using h'.constants
  · simpa [h.scope_restore_eq hp] using h'.scope

end Pass

/-! ### Running over statements -/

/-- **Induction over a run** that comes to its end.  Each statement is carried out, or what it has
left behind is undone. -/
theorem compileStatements_induction {s : Settings} {motive : Pass α → Pass α → Prop}
    (done : ∀ p, motive p p)
    (keep : ∀ p q r (t : TopLevel) b, t.plan s p.scope = .ok b → p.Completes b t.stmt.names q →
      motive q r → motive p r)
    (undo : ∀ p q r e, p.Extends q → motive ((q.restore p).record e) r → motive p r)
    {ts : List TopLevel} {p r : Pass α} {errors es : List CompileError} (hp : p.pool.Indexed)
    (h : compileStatements s p errors ts = (.ok es, r)) : motive p r := by
  induction ts generalizing p errors with
  | nil =>
    cases h
    exact done _
  | cons t ts ih =>
    simp only [compileStatements] at h
    cases hplan : t.plan s p.scope with
    | ok b =>
      obtain ⟨q, hq, hpq⟩ := (TopLevel.steps_meets s t).completes p b hp hplan
      simp only [hq] at h
      exact keep p q r t b hplan hpq (ih hpq.indexed h)
    | error f =>
      obtain ⟨q, hq, hpq⟩ := (TopLevel.steps_meets s t).stops p f hp hplan
      simp only [hq] at h
      cases f with
      | refused e => exact undo p q r _ hpq (ih hpq.indexed_restore h)
      | broken why => cases h

/-- The code of some plan has been added.  If names mean slots that exist, then the plan mentions only
slots that exist in the end. -/
def Pass.Builds (p r : Pass α) : Prop :=
  ∃ a : Plan, p.Adds a r ∧ (p.scope.Bounded →
    p.scope.slotCount ≤ r.scope.slotCount ∧ a.Uses (fun _ => True) (· < r.scope.slotCount))

namespace Pass.Builds

variable {s : Settings} {p q r : Pass α}

theorem refl (p : Pass α) : p.Builds p := ⟨.skip, .skip p, fun _ => ⟨Nat.le_refl _, trivial⟩⟩

theorem keep {t : TopLevel} {b : Plan} (hplan : t.plan s p.scope = .ok b)
    (hpq : p.Completes b t.stmt.names q) (h : q.Builds r) : p.Builds r := by
  obtain ⟨a, hqr, huses⟩ := h
  refine ⟨.andThen b a, hpq.toAdds.andThen hqr, fun hp => ?_⟩
  rw [hpq.scope] at huses
  obtain ⟨hle, ha⟩ := huses (hp.defineAll _)
  rw [Scope.slotCount_defineAll] at hle
  refine ⟨by omega, ?_, ha⟩
  obtain ⟨-, -, hstmt⟩ := bind_eq_ok_iff.1 hplan
  have hadmits : p.scope.Admits t.stmt.names (· < r.scope.slotCount) := by
    refine ⟨fun name slot hslot => ?_, fun k hk => by omega⟩
    have := hp name slot hslot
    omega
  exact (Stmt.plans_of_plan t.stmt hstmt).uses
    ⟨fun _ => trivial, fun _ => trivial, fun _ _ _ _ => trivial⟩ hadmits

theorem undo {e : Entry} (hpq : p.Extends q) (h : ((q.restore p).record e).Builds r) :
    p.Builds r := by
  obtain ⟨a, hqr, huses⟩ := h
  have hsame : ((q.restore p).record e).scope.SameNames p.scope := hpq.sameNames_restore
  rw [hsame.slotCount_eq] at huses
  exact ⟨a, .of_restore hpq hqr, fun hp => huses (hp.of_sameNames hsame)⟩

end Pass.Builds

/-- The kept ones of some statements have been compiled, and none of the statements breaks down. -/
structure Pass.Salvages (s : Settings) (p : Pass α) (ts : List TopLevel) (q : Pass α) : Prop where
  sound : ∀ x ∈ TopLevel.attempts s p.scope ts, ¬x.Breaks
  completes : ∃ a, (Script.survivors s p.scope ⟨none, ts⟩).plan s p.scope = .ok a ∧
    p.Completes a (Script.survivors s p.scope ⟨none, ts⟩).names q

namespace Pass.Salvages

variable {s : Settings} {p q r : Pass α} {t : TopLevel} {ts : List TopLevel}

theorem nil (hp : p.pool.Indexed) : p.Salvages s [] p :=
  ⟨by simp [TopLevel.attempts], .skip, rfl, .skip hp⟩

theorem keep {b : Plan} (hplan : t.plan s p.scope = .ok b) (hpq : p.Completes b t.stmt.names q)
    (h : q.Salvages s ts r) : p.Salvages s (t :: ts) r := by
  obtain ⟨program, hattempts⟩ := TopLevel.attempts_of_plan ts hplan
  obtain ⟨hsound, a, ha, hqr⟩ := h
  rw [hpq.scope] at ha hqr hsound
  have hsurvivors : Script.survivors s p.scope ⟨none, t :: ts⟩ = ⟨none, t ::
      (Script.survivors s (p.scope.defineAll t.stmt.names) ⟨none, ts⟩).body⟩ := by
    simp [Script.survivors, hattempts, Attempt.kept?]
  refine ⟨TopLevel.sound_of_plan hplan hsound, .andThen b a, ?_, ?_⟩
  · obtain ⟨-, -, hstmt⟩ := bind_eq_ok_iff.1 hplan
    rw [hsurvivors]
    exact Planned.join_eq_ok_iff.2 ⟨b, a, hstmt, ha, rfl⟩
  · rw [hsurvivors]
    exact hpq.andThen hqr

theorem drop {e : CompileError} {entry : Entry} (hp : p.scope.Level)
    (hplan : t.plan s p.scope = .error (.refused e)) (hpq : p.Extends q)
    (h : ((q.restore p).record entry).Salvages s ts r) : p.Salvages s (t :: ts) r := by
  have hscope : ((q.restore p).record entry).scope = p.scope := hpq.scope_restore_eq hp
  obtain ⟨hsound, a, ha, hr⟩ := h
  have hsurvivors : Script.survivors s p.scope ⟨none, t :: ts⟩ =
      Script.survivors s p.scope ⟨none, ts⟩ := by
    rw [Script.survivors, TopLevel.attempts_of_refused ts hp hplan]
    simp [Script.survivors, List.filterMap_cons, Attempt.kept?]
  rw [hscope] at hsound ha hr
  refine ⟨TopLevel.sound_of_refused hp hplan hsound, a, by rw [hsurvivors, ha], ?_⟩
  rw [hsurvivors]
  exact .of_restore hpq hp hr

end Pass.Salvages

/-- **A run over statements** salvages them and collects the errors of those it leaves out; or one
of them breaks down, and so does the run. -/
theorem compileStatements_cases (s : Settings) (ts : List TopLevel) {p : Pass α}
    (hp : p.pool.Indexed) (hlevel : p.scope.Level) (errors : List CompileError) :
    (∃ q, compileStatements s p errors ts =
        (.ok (errors.reverse ++ (TopLevel.attempts s p.scope ts).filterMap Attempt.error?), q) ∧
      p.Salvages s ts q) ∨
    (∃ why q, compileStatements s p errors ts = (.error why, q) ∧ p.Extends q ∧
      ∃ x ∈ TopLevel.attempts s p.scope ts, x.Breaks) := by
  induction ts generalizing p errors with
  | nil => exact .inl ⟨p, by simp [compileStatements, TopLevel.attempts], .nil hp⟩
  | cons t ts ih =>
    -- Split on the plan and not on the run: the plan decides the run here and the attempt alike.
    simp only [compileStatements]
    cases hplan : t.plan s p.scope with
    | ok b =>
      obtain ⟨q, hq, hpq⟩ := (TopLevel.steps_meets s t).completes p b hp hplan
      obtain ⟨program, hattempts⟩ := TopLevel.attempts_of_plan ts hplan
      rw [← hpq.scope] at hattempts
      simp only [hq, hattempts]
      have hlevel' : q.scope.Level := by
        rw [hpq.scope]
        exact hlevel.defineAll _
      rcases ih hpq.indexed hlevel' errors with
        ⟨r, hrun, hqr⟩ | ⟨why, r, hrun, hqr, x, hx, hbreaks⟩
      · refine .inl ⟨r, ?_, .keep hplan hpq hqr⟩
        simpa [List.filterMap_cons, Attempt.error?] using hrun
      · exact .inr ⟨why, r, hrun, hpq.extends.trans hqr, x, .tail _ hx, hbreaks⟩
    | error f =>
      obtain ⟨q, hq, hpq⟩ := (TopLevel.steps_meets s t).stops p f hp hplan
      simp only [hq]
      cases f with
      | refused e =>
        -- The run goes on from a restored pass, which has the scope that was there before `t`.
        have hscope : ((q.restore p).record (.skipped e)).scope = p.scope :=
          hpq.scope_restore_eq hlevel
        rw [TopLevel.attempts_of_refused ts hlevel hplan]
        rcases ih (p := (q.restore p).record (.skipped e)) hpq.indexed_restore
          (by rwa [hscope]) (e :: errors) with
          ⟨r, hrun, hqr⟩ | ⟨why, r, hrun, hqr, x, hx, hbreaks⟩
        · rw [hscope] at hrun
          refine .inl ⟨r, ?_, .drop hlevel hplan hpq hqr⟩
          simpa [List.filterMap_cons, Attempt.error?] using hrun
        · rw [hscope] at hx
          exact .inr ⟨why, r, hrun, .of_restore hpq hlevel hqr, x, .tail _ hx, hbreaks⟩
      | broken why =>
        obtain ⟨scope, hattempts⟩ := TopLevel.attempts_of_broken ts hplan
        rw [hattempts]
        exact .inr ⟨why, q, rfl, hpq, _, .head _, why, rfl⟩

/-! ### Recovery -/

namespace Script

variable {s : Settings} {scope : Scope α} {script : Script}

/-- What recovery leads to, in terms of the plan of the survivors. -/
theorem compileEach_cases (hscope : scope.Level) (s : Settings) (script : Script) :
    ((∀ x ∈ TopLevel.attempts s scope script.body, ¬x.Breaks) ∧
      ∃ a, (script.survivors s scope).plan s scope = .ok a ∧
        (script.compileEach s scope).result = .ok ⟨a.program s.name,
          (TopLevel.attempts s scope script.body).filterMap Attempt.error?⟩ ∧
        (script.compileEach s scope).scope = scope.defineAll (script.survivors s scope).names) ∨
    ((∃ x ∈ TopLevel.attempts s scope script.body, x.Breaks) ∧
      ∃ why names, (script.compileEach s scope).result = .error why ∧
        (script.compileEach s scope).scope = scope.defineAll names) := by
  rcases compileStatements_cases s script.body (p := .start scope) Pool.indexed_empty hscope [] with
    ⟨q, hrun, hsound, a, ha, hq⟩ | ⟨why, q, hrun, hq, hbreaks⟩
  · refine .inl ⟨hsound, a, ha, ?_⟩
    simp only [compileEach, hrun]
    exact ⟨by rw [hq.toAdds.finish]; rfl, hq.scope⟩
  · obtain ⟨names, hnames⟩ := hq.scope
    refine .inr ⟨hbreaks, why, names, ?_⟩
    simp only [compileEach, hrun]
    exact ⟨trivial, hnames⟩

/-- Whatever the scope, a report has the program of a plan, and where names mean slots that exist
so do all slots that the program mentions. -/
theorem exists_plan_of_compileEach {report : Report}
    (h : (script.compileEach s scope).result = .ok report) :
    ∃ a : Plan, report.program = a.program s.name ∧ (scope.Bounded →
      a.Uses (fun _ => True) (· < (script.compileEach s scope).scope.slotCount)) := by
  unfold compileEach at h ⊢
  split at h
  · next es r hrun =>
    obtain ⟨a, ha, huses⟩ := compileStatements_induction Pass.Builds.refl
      (fun _ _ _ _ _ => Pass.Builds.keep) (fun _ _ _ _ => Pass.Builds.undo) Pool.indexed_empty hrun
    cases h
    exact ⟨a, ha.finish s.name, fun hscope => (huses hscope).2⟩
  · cases h

theorem exists_report_of_sound (hscope : scope.Level)
    (h : ∀ x ∈ TopLevel.attempts s scope script.body, ¬x.Breaks) :
    ∃ report, (script.compileEach s scope).result = .ok report := by
  rcases compileEach_cases hscope s script with ⟨-, _, -, hresult, -⟩ | ⟨⟨x, hx, hbreaks⟩, -⟩
  · exact ⟨_, hresult⟩
  · exact absurd hbreaks (h x hx)

/-- Statements that are not kept have one error each. -/
theorem forall₂_error? {xs : List Attempt} (h : ∀ x ∈ xs, ¬x.Breaks) :
    List.Forall₂ (fun x e => x.result = .error (.refused e))
      (xs.filter fun x => x.kept?.isNone) (xs.filterMap Attempt.error?) := by
  induction xs with
  | nil => exact .nil
  | cons x xs ih =>
    obtain ⟨hx, hxs⟩ := List.forall_mem_cons.1 h
    obtain ⟨t, result⟩ := x
    cases result with
    | ok program => simpa [List.filterMap_cons, Attempt.kept?, Attempt.error?] using ih hxs
    | error f =>
      cases f with
      | refused e => simpa [List.filterMap_cons, Attempt.kept?, Attempt.error?] using ih hxs
      | broken why => exact absurd ⟨why, rfl⟩ hx

/-- **Recovery equals compiling the survivors.**  If no statement breaks down, there is a report.
Its program and the scope left behind are those of the script of the survivors, and it has one
error for every statement left out, in their order.  The scope is one with as many initial values
as names, as all are that definitions and compilation lead to. -/
theorem compileEach_eq_compile_survivors (hscope : scope.Level)
    (h : ∀ x ∈ TopLevel.attempts s scope script.body, ¬x.Breaks) :
    ∃ report, (script.compileEach s scope).result = .ok report ∧
      ((script.survivors s scope).compile s scope).result = .ok report.program ∧
      ((script.survivors s scope).compile s scope).scope = (script.compileEach s scope).scope ∧
      (TopLevel.attempts s scope script.body).map Attempt.stmt = script.body ∧
      List.Forall₂ (fun x e => x.result = .error (.refused e)) (script.dropped s scope)
        report.errors := by
  rcases compileEach_cases hscope s script with ⟨-, a, ha, hresult, hafter⟩ | ⟨⟨x, hx, hbreaks⟩, -⟩
  · obtain ⟨hcompile, hnames⟩ := compile_of_plan ha
    exact ⟨_, hresult, hcompile, by rw [hnames, hafter], TopLevel.map_stmt_attempts s scope _,
      forall₂_error? h⟩
  · exact absurd hbreaks (h x hx)

/-- The script `let a = 1; let [b, c] = 5 + z; if (a) 5 + a;`. -/
def stumbling : Script :=
  let number (text : String) := Expr.number ⟨1, 1⟩ (.ok text)
  let name (text : String) := Expr.identifier ⟨1, 1⟩ (.ok text)
  let sum (x y : Expr) := Expr.binary ⟨1, 1⟩ x y (.ok "+")
  let pair := Pattern.array ⟨1, 1⟩
    [.identifier ⟨1, 1⟩ (.ok "b"), .identifier ⟨1, 1⟩ (.ok "c")]
  ⟨none, [
    ⟨none, .lexical ⟨1, 1⟩ (.ok "let") [⟨.identifier ⟨1, 1⟩ (.ok "a"), some (number "1")⟩]⟩,
    ⟨none, .lexical ⟨1, 1⟩ (.ok "let") [⟨pair, some (sum (number "5") (name "z"))⟩]⟩,
    ⟨none, .ifThen ⟨1, 1⟩ (name "a") (.expression ⟨1, 1⟩ (sum (number "5") (name "a")))⟩]⟩

/-- Without a variable `z` the second statement is refused, after its first name has been defined
and its first number added.  Nothing breaks down. -/
theorem sound_stumbling :
    ∀ x ∈ TopLevel.attempts .standard (.empty [] : Scope Unit) stumbling.body, ¬x.Breaks := by
  refine TopLevel.sound_of_plan rfl (TopLevel.sound_of_refused ((Scope.level_empty []).defineAll _)
    rfl (TopLevel.sound_of_plan rfl ?_))
  simp [TopLevel.attempts]

theorem compileEach_stumbling :
    let scope : Scope Unit := .empty []
    let survivors := (stumbling.survivors .standard scope).compile .standard scope
    scope.Level ∧ (∀ x ∈ TopLevel.attempts .standard scope stumbling.body, ¬x.Breaks) ∧
    ∃ report, (stumbling.compileEach .standard scope).result = .ok report ∧
      survivors.result = .ok report.program ∧
      survivors.scope = (stumbling.compileEach .standard scope).scope ∧
      (TopLevel.attempts .standard scope stumbling.body).map Attempt.stmt = stumbling.body ∧
      List.Forall₂ (fun x e => x.result = .error (.refused e))
        (stumbling.dropped .standard scope) report.errors :=
  ⟨Scope.level_empty [], sound_stumbling,
    compileEach_eq_compile_survivors (Scope.level_empty []) sound_stumbling⟩

end Script

end StackScript
