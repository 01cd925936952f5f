import StackScript.Proofs.OpcodeStatistics

/-!
# Empty statements that halt

Where empty statements halt, a program has a halt for each of them, and everything behind it stands
one word further on.  Nothing else is different:

* `Build.Alike` : steps end alike when they end with the same fault or with none, and in the same
  scope, whatever code they have written;
* `Stmt.build_alike` : the steps of a statement end alike under both settings;
* `Stmt.plan_withHalts` : the plan of a statement without halts is that of the other setting;
* `Plan.code_withoutHalts` : the code of a plan without halts, with moved jump targets;
* `Script.emptyHalts_only_inserts` : hence what the setting does to a program.
-/

namespace StackScript

variable {α β γ : Type}

/-- The settings with empty statements that halt, or that do not. -/
def Settings.withHalts (s : Settings) (halts : Bool) : Settings := { s with emptyHalts := halts }

/-! ### Steps that end alike -/

namespace Build

/-- Two runs end with the same fault or with none, and in the same scope. -/
def EndAlike : EStateM.Result Fault (Pass α) β → EStateM.Result Fault (Pass α) γ → Prop
  | .ok _ p, .ok _ q => p.scope = q.scope
  | .error f p, .error g q => f = g ∧ p.scope = q.scope
  | .ok _ _, .error _ _ | .error _ _, .ok _ _ => False

/-- Steps that end alike from passes with the same scope. -/
def Alike (m : Build α β) (n : Build α γ) : Prop :=
  ∀ p q, p.scope = q.scope → EndAlike (m.run p) (n.run q)

variable {m : Build α β} {n : Build α γ}

/-- One step after the other, where the results of the first ones do not matter to the scope. -/
theorem Alike.bind {δ ε : Type} {k : β → Build α δ} {l : γ → Build α ε} (h : Alike m n)
    (hk : ∀ b c, Alike (k b) (l c)) : Alike (m >>= k) (n >>= l) := by
  intro p q hscope
  have hfirst := h p q hscope
  rw [EStateM.run_bind, EStateM.run_bind]
  cases hm : m.run p with
  | ok b p' =>
    cases hn : n.run q with
    | ok c q' =>
      rw [hm, hn] at hfirst
      exact hk b c p' q' hfirst
    | error g q' =>
      rw [hm, hn] at hfirst
      exact hfirst.elim
  | error f p' =>
    cases hn : n.run q with
    | ok c q' =>
      rw [hm, hn] at hfirst
      exact hfirst.elim
    | error g q' =>
      rw [hm, hn] at hfirst
      exact hfirst

/-- Deciding first, with the same result on both sides. -/
theorem Alike.decide {δ ε ζ : Type} (x : Except Fault δ) {k : δ → Build α ε} {l : δ → Build α ζ}
    (h : ∀ d, Alike (k d) (l d)) : Alike (ofExcept x >>= k) (ofExcept x >>= l) := by
  cases x with
  | ok d => exact h d
  | error f => exact fun p q hscope => ⟨rfl, hscope⟩

theorem alike_fault (f : Fault) :
    Alike (ofExcept (.error f) : Build α β) (ofExcept (.error f) : Build α γ) :=
  fun _ _ hscope => ⟨rfl, hscope⟩

/-- A step that cannot fail and leaves the scope as it is. -/
def KeepsScope (m : Build α β) : Prop := ∀ p, ∃ b q, m.run p = .ok b q ∧ q.scope = p.scope

theorem KeepsScope.alike (hm : KeepsScope m) (hn : KeepsScope n) : Alike m n := by
  intro p q hscope
  obtain ⟨b, p', hp, hp'⟩ := hm p
  obtain ⟨c, q', hq, hq'⟩ := hn q
  rw [hp, hq]
  exact hp'.trans (hscope.trans hq'.symm)

theorem keepsScope_skip : KeepsScope (pure () : Build α Unit) := fun p => ⟨(), p, rfl, rfl⟩

theorem keepsScope_emit (i : Instruction) : KeepsScope (emit i : Build α Unit) :=
  fun p => ⟨(), p.emit i, rfl, rfl⟩

theorem keepsScope_emitJump (jump : Int → Instruction) : KeepsScope (emitJump jump : Build α Nat) :=
  fun p => ⟨_, p.emit (jump pendingTarget), rfl, rfl⟩

theorem keepsScope_patch (position : Nat) : KeepsScope (patch position : Build α Unit) :=
  fun p => ⟨(), p.patch position, rfl, rfl⟩

theorem keepsScope_pushConstant (c : Constant) : KeepsScope (pushConstant c : Build α Unit) :=
  fun p => ⟨(), p.pushConstant c, rfl, rfl⟩

theorem alike_define (name : String) : Alike (define name : Build α Nat) (define name) := by
  intro p q hscope
  change (p.scope.define name none).2 = (q.scope.define name none).2
  rw [hscope]

theorem Alike.forM {δ : Type} {l : List δ} {k k' : δ → Build α PUnit}
    (h : ∀ x, Alike (k x) (k' x)) :
    Alike (l.forM k) (l.forM k') := by
  induction l with
  | nil => exact keepsScope_skip.alike keepsScope_skip
  | cons x l ih =>
    change Alike (k x >>= fun _ => l.forM k) (k' x >>= fun _ => l.forM k')
    exact (h x).bind fun _ _ => ih

end Build

open Build

theorem alike_pushVariable (pos : Position) (name : String) :
    Alike (pushVariable pos name : Build α Unit) (pushVariable pos name) := by
  intro p q hscope
  -- What is done next depends on the scope alone, so both sides do it.
  cases hslot : q.scope.slot? name with
  | some slot =>
    simp only [pushVariable, EStateM.run_bind, EStateM.run_get, hscope, hslot]
    exact (keepsScope_emit _).alike (keepsScope_emit _) p q hscope
  | none =>
    simp only [pushVariable, EStateM.run_bind, EStateM.run_get, hscope, hslot]
    cases q.scope.isGlobal name with
    | true => exact alike_fault _ p q hscope
    | false => exact alike_fault _ p q hscope

section Settings

variable (s : Settings) (halts halts' : Bool)

@[simp] theorem Settings.allow_withHalts : (s.withHalts halts).allow = s.allow := rfl

theorem Expr.build_alike (depth : Nat) (e : Expr) :
    Alike (e.build (s.withHalts halts) depth : Build α Unit)
      (e.build (s.withHalts halts') depth) := by
  have hpush (c : Constant) : Alike (pushConstant c : Build α Unit) (pushConstant c) :=
    (keepsScope_pushConstant c).alike (keepsScope_pushConstant c)
  induction e generalizing depth with
  | number pos text =>
    simp only [Expr.build, enter_eq, read_eq, pushNumber_eq]
    exact .decide _ fun _ => .decide _ fun _ => .decide _ hpush
  | boolean pos value =>
    simp only [Expr.build, enter_eq]
    exact .decide _ fun _ => hpush _
  | string pos text =>
    simp only [Expr.build, enter_eq, read_eq, pushString_eq]
    exact .decide _ fun _ => .decide _ fun _ => .decide _ hpush
  | identifier pos name =>
    simp only [Expr.build, enter_eq, read_eq]
    exact .decide _ fun _ => .decide _ fun name => alike_pushVariable pos name
  | parenthesized pos inner ih =>
    simp only [Expr.build, enter_eq]
    exact .decide _ fun _ => ih (depth + 1)
  | binary pos left right operator ihl ihr =>
    simp only [Expr.build, enter_eq, read_eq]
    refine .decide _ fun _ => (ihl (depth + 1)).bind fun _ _ => (ihr (depth + 1)).bind fun _ _ => ?_
    refine .decide _ fun sign => ?_
    cases binaryInstruction? sign with
    | some i => exact (keepsScope_emit i).alike (keepsScope_emit i)
    | none => exact alike_fault _
  | unsupported pos kind => exact alike_fault _
  | broken why => exact alike_fault _

theorem bindName_alike (depth : Nat) (value : Option Expr) (name : String) :
    Alike (bindName (s.withHalts halts) depth value name : Build α Unit)
      (bindName (s.withHalts halts') depth value name) := by
  refine (alike_define name).bind fun slot slot' => ?_
  cases value with
  | none => exact keepsScope_skip.alike keepsScope_skip
  | some e =>
    exact (e.build_alike s halts halts' depth).bind fun _ _ =>
      (keepsScope_emit _).alike (keepsScope_emit _)

mutual

theorem Pattern.build_alike (depth : Nat) (value : Option Expr) (p : Pattern) :
    Alike (p.build (s.withHalts halts) depth value : Build α Unit)
      (p.build (s.withHalts halts') depth value) := by
  cases p with
  | identifier pos name =>
    simp only [Pattern.build, enter_eq, read_eq]
    exact .decide _ fun _ => .decide _ fun name => bindName_alike s halts halts' _ value name
  | array pos elements =>
    simp only [Pattern.build, enter_eq]
    exact .decide _ fun _ => Pattern.buildAll_alike (depth + 1) value elements
  | object pos properties =>
    simp only [Pattern.build, enter_eq, Property.read_eq]
    exact .decide _ fun _ => .forM fun _ =>
      .decide _ fun name => bindName_alike s halts halts' _ value name
  | unsupported pos kind => exact alike_fault _
  | broken why => exact alike_fault _

theorem Pattern.buildAll_alike (depth : Nat) (value : Option Expr) (ps : List Pattern) :
    Alike (Pattern.buildAll (s.withHalts halts) depth value ps : Build α Unit)
      (Pattern.buildAll (s.withHalts halts') depth value ps) := by
  cases ps with
  | nil => exact keepsScope_skip.alike keepsScope_skip
  | cons p ps =>
    simp only [Pattern.buildAll]
    exact (Pattern.build_alike depth value p).bind fun _ _ =>
      Pattern.buildAll_alike depth value ps

end

mutual

/-- **The steps of a statement end alike** whether empty statements halt or not. -/
theorem Stmt.build_alike (depth : Nat) (t : Stmt) :
    Alike (t.build (s.withHalts halts) depth : Build α Unit)
      (t.build (s.withHalts halts') depth) := by
  cases t with
  | expression pos value =>
    simp only [Stmt.build, enter_eq]
    exact .decide _ fun _ => value.build_alike s halts halts' (depth + 1)
  | lexical pos kind declarators =>
    simp only [Stmt.build, enter_eq, read_eq]
    refine .decide _ fun _ => .decide _ fun kind => ?_
    have hbuild : Alike (declarators.forM fun d =>
          d.target.build (s.withHalts halts) (depth + 1) d.value : Build α Unit)
        (declarators.forM fun d => d.target.build (s.withHalts halts') (depth + 1) d.value) :=
      .forM fun d => d.target.build_alike s halts halts' (depth + 1) d.value
    by_cases hlet : kind ≠ "let"
    · rw [if_pos hlet, if_pos hlet]
      exact Alike.bind (alike_fault _) fun _ _ => hbuild
    · rw [if_neg hlet, if_neg hlet]
      exact hbuild
  | foreign pos kind =>
    simp only [Stmt.build, enter_eq]
    exact .decide _ fun _ => alike_fault _
  | ifThen pos test body =>
    simp only [Stmt.build, enter_eq]
    refine .decide _ fun _ => (test.build_alike s halts halts' (depth + 1)).bind fun _ _ => ?_
    refine ((keepsScope_emitJump _).alike (keepsScope_emitJump _)).bind fun skip skip' => ?_
    refine (Stmt.build_alike (depth + 1) body).bind fun _ _ => ?_
    refine ((keepsScope_emitJump _).alike (keepsScope_emitJump _)).bind fun done done' => ?_
    refine ((keepsScope_patch skip).alike (keepsScope_patch skip')).bind fun _ _ => ?_
    exact (keepsScope_patch done).alike (keepsScope_patch done')
  | ifElse pos test body alternative =>
    simp only [Stmt.build, enter_eq]
    refine .decide _ fun _ => (test.build_alike s halts halts' (depth + 1)).bind fun _ _ => ?_
    refine ((keepsScope_emitJump _).alike (keepsScope_emitJump _)).bind fun skip skip' => ?_
    refine (Stmt.build_alike (depth + 1) body).bind fun _ _ => ?_
    refine ((keepsScope_emitJump _).alike (keepsScope_emitJump _)).bind fun done done' => ?_
    refine ((keepsScope_patch skip).alike (keepsScope_patch skip')).bind fun _ _ => ?_
    refine (Stmt.build_alike (depth + 1) alternative).bind fun _ _ => ?_
    exact (keepsScope_patch done).alike (keepsScope_patch done')
  | empty pos =>
    simp only [Stmt.build, enter_eq]
    refine .decide _ fun _ => ?_
    -- The one place where the two settings differ.
    have hkeeps (b : Bool) : KeepsScope (if (s.withHalts b).emptyHalts then .emit .halt
        else pure () : Build α Unit) := by
      cases b with
      | true => exact keepsScope_emit _
      | false => exact keepsScope_skip
    exact (hkeeps halts).alike (hkeeps halts')
  | block pos body =>
    simp only [Stmt.build, enter_eq]
    exact .decide _ fun _ => Stmt.buildAll_alike (depth + 1) body
  | unsupported pos kind => exact alike_fault _
  | broken why => exact alike_fault _

theorem Stmt.buildAll_alike (depth : Nat) (ts : List Stmt) :
    Alike (Stmt.buildAll (s.withHalts halts) depth ts : Build α Unit)
      (Stmt.buildAll (s.withHalts halts') depth ts) := by
  cases ts with
  | nil => exact keepsScope_skip.alike keepsScope_skip
  | cons t ts =>
    simp only [Stmt.buildAll]
    exact (Stmt.build_alike depth t).bind fun _ _ => Stmt.buildAll_alike depth ts

end

end Settings

theorem Script.steps_alike (s : Settings) (halts halts' : Bool) (script : Script) :
    Alike (do
        checkDamage script.damage
        Stmt.buildAll (s.withHalts halts) 0 (script.body.map TopLevel.stmt) : Build α Unit)
      (do
        checkDamage script.damage
        Stmt.buildAll (s.withHalts halts') 0 (script.body.map TopLevel.stmt)) := by
  rw [checkDamage_eq]
  exact .decide _ fun _ => Stmt.buildAll_alike s halts halts' 0 _

/-- A script leaves the same scope whether empty statements halt or not. -/
theorem Script.scope_compile_withHalts (s : Settings) (halts halts' : Bool) (script : Script)
    (scope : Scope α) :
    (script.compile (s.withHalts halts) scope).scope =
      (script.compile (s.withHalts halts') scope).scope := by
  have halike := script.steps_alike s halts halts' (.start scope) (.start scope) rfl
  unfold compile
  dsimp only
  generalize EStateM.run _ _ = run at halike ⊢
  generalize EStateM.run _ _ = run' at halike ⊢
  cases run with
  | ok _ p =>
    cases run' with
    | ok _ q => exact halike
    | error g q => exact halike.elim
  | error f p =>
    cases run' with
    | ok _ q => exact halike.elim
    | error g q =>
      obtain ⟨rfl, hscope⟩ := halike
      cases f with
      | refused e => exact congrArg (·.rollback scope.checkpoint) hscope
      | broken why => exact hscope

/-! ### Plans without halts -/

/-- The plan without its halts. -/
def Plan.withoutHalts : Plan → Plan
  | halt => skip
  | andThen a b => andThen a.withoutHalts b.withoutHalts
  | branch a b => branch a.withoutHalts b.withoutHalts
  | skip => skip
  | push c => push c
  | load slot => load slot
  | store slot => store slot
  | operate op => operate op

namespace Planned

/-- The plan without its halts, if there is a plan. -/
def withoutHalts (x : Planned) : Planned := x.map Plan.withoutHalts

@[simp] theorem withoutHalts_ok (a : Plan) : withoutHalts (.ok a) = .ok a.withoutHalts := rfl

@[simp] theorem withoutHalts_pure (a : Plan) : withoutHalts (pure a) = pure a.withoutHalts := rfl

@[simp] theorem withoutHalts_error (f : Fault) : withoutHalts (.error f) = .error f := rfl

@[simp] theorem withoutHalts_refusal (pos : Position) (cause : Cause) :
    withoutHalts (refusal pos cause) = refusal pos cause := rfl

@[simp] theorem withoutHalts_bind (x : Except Fault β) (k : β → Planned) :
    withoutHalts (x >>= k) = x >>= fun b => withoutHalts (k b) := by
  cases x <;> rfl

@[simp] theorem withoutHalts_join (x y : Planned) :
    withoutHalts (join x y) = join x.withoutHalts y.withoutHalts := by
  cases x <;> cases y <;> rfl

@[simp] theorem withoutHalts_fork (x y : Planned) :
    withoutHalts (fork x y) = fork x.withoutHalts y.withoutHalts := by
  cases x <;> cases y <;> rfl

end Planned

open Planned

section Settings

variable (s : Settings)

theorem Expr.plan_withHalts (depth : Nat) (scope : Scope α) (e : Expr) :
    e.plan (s.withHalts false) depth scope =
      (e.plan (s.withHalts true) depth scope).withoutHalts := by
  induction e generalizing depth with
  | number _ _ | boolean _ _ | string _ _ | identifier _ _ =>
    simp only [plan, Settings.allow_withHalts, withoutHalts_bind, withoutHalts_pure,
      Plan.withoutHalts]
  | parenthesized pos inner ih =>
    simp only [plan, Settings.allow_withHalts, withoutHalts_bind, ih]
  | binary pos left right operator ihl ihr =>
    simp only [plan, Settings.allow_withHalts, withoutHalts_bind, withoutHalts_join,
      withoutHalts_pure, Plan.withoutHalts, ihl, ihr]
  | unsupported pos kind => rfl
  | broken why => rfl

theorem bindingPlan_withHalts (depth : Nat) (value : Option Expr) (name : String)
    (scope : Scope α) :
    bindingPlan (s.withHalts false) depth value name scope =
      (bindingPlan (s.withHalts true) depth value name scope).withoutHalts := by
  cases value with
  | none => rfl
  | some e => simp [bindingPlan, Expr.plan_withHalts, Plan.withoutHalts]

theorem Property.planAll_withHalts (depth : Nat) (value : Option Expr) (scope : Scope α)
    (ps : List Property) :
    Property.planAll (s.withHalts false) depth value scope ps =
      (Property.planAll (s.withHalts true) depth value scope ps).withoutHalts := by
  induction ps generalizing scope with
  | nil => rfl
  | cons p ps ih => simp [planAll, bindingPlan_withHalts, ih]

mutual

theorem Pattern.plan_withHalts (depth : Nat) (value : Option Expr) (scope : Scope α) (p : Pattern) :
    p.plan (s.withHalts false) depth value scope =
      (p.plan (s.withHalts true) depth value scope).withoutHalts := by
  cases p with
  | identifier pos name => simp [plan, bindingPlan_withHalts]
  | array pos elements => simp [plan, Pattern.planAll_withHalts]
  | object pos properties => simp [plan, Property.planAll_withHalts]
  | unsupported pos kind => simp [plan]
  | broken why => simp [plan]

theorem Pattern.planAll_withHalts (depth : Nat) (value : Option Expr) (scope : Scope α)
    (ps : List Pattern) :
    Pattern.planAll (s.withHalts false) depth value scope ps =
      (Pattern.planAll (s.withHalts true) depth value scope ps).withoutHalts := by
  cases ps with
  | nil => simp [planAll, Plan.withoutHalts]
  | cons p ps => simp [planAll, Pattern.plan_withHalts depth value _ p,
      Pattern.planAll_withHalts depth value _ ps]

end

theorem Declarator.planAll_withHalts (depth : Nat) (scope : Scope α) (ds : List Declarator) :
    Declarator.planAll (s.withHalts false) depth scope ds =
      (Declarator.planAll (s.withHalts true) depth scope ds).withoutHalts := by
  induction ds generalizing scope with
  | nil => rfl
  | cons d ds ih => simp [planAll, Pattern.plan_withHalts, ih]

mutual

/-- **The plan of a statement without halts** is its plan where empty statements do not halt. -/
theorem Stmt.plan_withHalts (depth : Nat) (scope : Scope α) (t : Stmt) :
    t.plan (s.withHalts false) depth scope =
      (t.plan (s.withHalts true) depth scope).withoutHalts := by
  cases t with
  | expression pos value => simp [plan, Expr.plan_withHalts]
  | lexical pos kind declarators =>
    simp only [plan, Settings.allow_withHalts, withoutHalts_bind, Declarator.planAll_withHalts]
    refine bind_congr fun _ => bind_congr fun kind => ?_
    split
    · rw [withoutHalts_bind]
    · rfl
  | foreign pos kind => simp [plan]
  | ifThen pos test body =>
    simp [plan, Expr.plan_withHalts, Stmt.plan_withHalts _ _ body, Plan.withoutHalts]
  | ifElse pos test body alternative =>
    simp [plan, Expr.plan_withHalts, Stmt.plan_withHalts _ _ body,
      Stmt.plan_withHalts _ _ alternative]
  | empty pos =>
    simp only [plan, Settings.allow_withHalts, withoutHalts_bind]
    rfl
  | block pos body => simp [plan, Stmt.planAll_withHalts _ _ body]
  | unsupported pos kind => simp [plan]
  | broken why => simp [plan]

theorem Stmt.planAll_withHalts (depth : Nat) (scope : Scope α) (ts : List Stmt) :
    Stmt.planAll (s.withHalts false) depth scope ts =
      (Stmt.planAll (s.withHalts true) depth scope ts).withoutHalts := by
  cases ts with
  | nil => simp [planAll, Plan.withoutHalts]
  | cons t ts => simp [planAll, Stmt.plan_withHalts _ _ t, Stmt.planAll_withHalts _ _ ts]

end

theorem Script.plan_withHalts (scope : Scope α) (script : Script) :
    script.plan (s.withHalts false) scope =
      (script.plan (s.withHalts true) scope).withoutHalts := by
  simp [plan, Stmt.planAll_withHalts]

end Settings

/-! ### Code without halts -/

/-- The instruction with its jump target moved, if it has one. -/
def Instruction.retarget (move : Int → Int) : Instruction → Instruction
  | jump target => jump (move target)
  | jumpIfFalse target => jumpIfFalse (move target)
  | i => i

theorem Instruction.retarget_ne_halt {move : Int → Int} {i : Instruction} (h : i ≠ .halt) :
    i.retarget move ≠ .halt := by
  cases i <;> simp_all [retarget]

namespace Code

/-- The offsets of the halts. -/
def haltOffsets (ls : List Located) : List Nat :=
  (ls.filter (·.instruction = .halt)).map Located.offset

/-- Where a target leads when the words at the given offsets are removed. -/
def closeUp (removed : List Nat) (target : Int) : Int :=
  target - removed.countP fun offset : Nat => (offset : Int) < target

/-- The instructions that are not halts, with their jump targets moved. -/
def withoutHalts (move : Int → Int) (is : List Instruction) : List Instruction :=
  (is.filter (· ≠ .halt)).map (Instruction.retarget move)

@[simp] theorem withoutHalts_append (move : Int → Int) (is js : List Instruction) :
    withoutHalts move (is ++ js) = withoutHalts move is ++ withoutHalts move js := by
  simp [withoutHalts]

theorem halt_notMem_withoutHalts (move : Int → Int) (is : List Instruction) :
    Instruction.halt ∉ withoutHalts move is := by
  intro h
  obtain ⟨i, hi, hhalt⟩ := List.mem_map.1 h
  exact Instruction.retarget_ne_halt (by simpa using (List.mem_filter.1 hi).2) hhalt

/-- Offsets are moved so that halts take no room and everything else keeps its width. -/
def ClosesUp (move : Int → Int) (ls : List Located) : Prop :=
  ∀ l ∈ ls, move (l.offset + l.instruction.width : Nat) =
    move l.offset + if l.instruction = .halt then 0 else (l.instruction.width : Int)

theorem closesUp_append {move : Int → Int} {ls ms : List Located} :
    ClosesUp move (ls ++ ms) ↔ ClosesUp move ls ∧ ClosesUp move ms :=
  List.forall_mem_append

theorem closesUp_cons {move : Int → Int} {l : Located} {ls : List Located} :
    ClosesUp move (l :: ls) ↔ ClosesUp move [l] ∧ ClosesUp move ls := by
  rw [← List.singleton_append, closesUp_append]

theorem haltOffsets_append (ls ms : List Located) :
    haltOffsets (ls ++ ms) = haltOffsets ls ++ haltOffsets ms := by
  simp [haltOffsets]

theorem haltOffsets_cons_halt {offset : Nat} {i : Instruction} (h : i = .halt)
    (ls : List Located) : haltOffsets (⟨offset, i⟩ :: ls) = offset :: haltOffsets ls := by
  simp [haltOffsets, h]

theorem haltOffsets_cons_of_ne {offset : Nat} {i : Instruction} (h : i ≠ .halt)
    (ls : List Located) : haltOffsets (⟨offset, i⟩ :: ls) = haltOffsets ls := by
  simp [haltOffsets, h]

theorem le_offset_of_mem_locate {offset : Nat} {is : List Instruction} {l : Located}
    (h : l ∈ locate offset is) : offset ≤ l.offset := by
  obtain ⟨before, after, -, hoffset⟩ := exists_of_mem_locate h
  omega

/-- Removed offsets before a target count, those from it on do not. -/
theorem closeUp_append {before after : List Nat} {target : Nat} (hbefore : ∀ o ∈ before, o < target)
    (hafter : ∀ o ∈ after, target ≤ o) :
    closeUp (before ++ after) target = target - before.length := by
  have hall : before.countP (fun o : Nat => (o : Int) < target) = before.length := by
    rw [List.countP_eq_length]
    intro o ho
    simpa using hbefore o ho
  have hnone : after.countP (fun o : Nat => (o : Int) < target) = 0 := by
    rw [List.countP_eq_zero]
    intro o ho
    simpa using hafter o ho
  rw [closeUp, List.countP_append, hall, hnone, Nat.add_zero]

theorem closeUp_zero (removed : List Nat) : closeUp removed (0 : Nat) = (0 : Nat) :=
  closeUp_append (List.forall_mem_nil _) fun o _ => o.zero_le

/-- Without the halts of some code, offsets in it close up. -/
theorem closesUp_closeUp (is : List Instruction) :
    ClosesUp (closeUp (haltOffsets (locate 0 is))) (locate 0 is) := by
  intro l hl
  obtain ⟨before, after, rfl, hoffset⟩ := exists_of_mem_locate hl
  rw [Nat.zero_add] at hoffset
  have hbefore : ∀ o ∈ haltOffsets (locate 0 before), o < l.offset := by
    intro o ho
    obtain ⟨k, hk, rfl⟩ := List.mem_map.1 ho
    have hlt := offset_lt_of_mem_locate (List.mem_of_mem_filter hk)
    omega
  have hafter : ∀ o ∈ haltOffsets (locate (l.offset + l.instruction.width) after),
      l.offset + l.instruction.width ≤ o := by
    intro o ho
    obtain ⟨k, hk, rfl⟩ := List.mem_map.1 ho
    exact le_offset_of_mem_locate (List.mem_of_mem_filter hk)
  rw [locate_append, Nat.zero_add, ← hoffset, locate, haltOffsets_append]
  generalize haltOffsets (locate 0 before) = earlier at hbefore ⊢
  by_cases hhalt : l.instruction = .halt
  · have hwidth : l.instruction.width = 1 := by rw [hhalt]; rfl
    rw [haltOffsets_cons_halt hhalt, if_pos hhalt]
    generalize haltOffsets _ = later at hafter ⊢
    rw [hwidth] at hafter ⊢
    have hat : closeUp (earlier ++ l.offset :: later) l.offset = l.offset - earlier.length :=
      closeUp_append hbefore (by grind)
    have hbehind : closeUp ((earlier ++ [l.offset]) ++ later) (l.offset + 1 : Nat) =
        (l.offset + 1 : Nat) - (earlier ++ [l.offset]).length :=
      closeUp_append (by grind) hafter
    rw [List.append_assoc, List.singleton_append] at hbehind
    rw [hat, hbehind, List.length_append, List.length_singleton]
    omega
  · rw [haltOffsets_cons_of_ne hhalt, if_neg hhalt]
    rw [closeUp_append hbefore fun o ho => Nat.le_of_add_right_le (hafter o ho),
      closeUp_append (fun o ho => Nat.lt_add_right _ (hbefore o ho)) hafter]
    omega

end Code

namespace Plan

open Code

@[simp] theorem pool_withoutHalts (a : Plan) (cs : List Constant) :
    a.withoutHalts.pool cs = a.pool cs := by
  induction a generalizing cs with
  | andThen a b iha ihb | branch a b iha ihb => simp only [withoutHalts, pool, iha, ihb]
  | skip | halt | push _ | load _ | store _ | operate _ => rfl

/-- **The code of a plan without halts** is its code without halts, with moved targets. -/
theorem code_withoutHalts (a : Plan) {move : Int → Int} {offset offset' : Nat}
    {cs : List Constant} (hstart : move offset = offset')
    (hmove : ClosesUp move (locate offset (a.code offset cs))) :
    Code.withoutHalts move (a.code offset cs) = a.withoutHalts.code offset' cs ∧
      move (offset + a.width : Nat) = (offset' + a.withoutHalts.width : Nat) := by
  induction a generalizing offset offset' cs with
  | skip => exact ⟨rfl, hstart⟩
  | halt | push _ | load _ | store _ =>
    have hnext := hmove _ (List.mem_singleton_self _)
    rw [hstart] at hnext
    exact ⟨rfl, hnext⟩
  | operate op =>
    have hnext := hmove _ (List.mem_singleton_self _)
    rw [hstart] at hnext
    cases op <;> exact ⟨rfl, hnext⟩
  | andThen a b iha ihb =>
    simp only [code, locate_append, length_encode_code, closesUp_append] at hmove
    obtain ⟨hcode, hwidth⟩ := iha hstart hmove.1
    obtain ⟨hcode', hwidth'⟩ := ihb hwidth hmove.2
    simp only [code, withoutHalts, Code.withoutHalts_append, hcode, hcode', width,
      pool_withoutHalts, ← Nat.add_assoc, hwidth', and_self]
  | branch a b iha ihb =>
    rw [locate_code_branch, closesUp_cons, closesUp_append] at hmove
    obtain ⟨htest, hbody, hrest⟩ := hmove
    obtain ⟨hjump, halternative⟩ := closesUp_cons.1 hrest
    -- From part to part: where each one starts, and with the last one where the branch ends.
    have hfirst : move (offset + 2 : Nat) = (offset' + 2 : Nat) := by
      have hnext := htest _ (List.mem_singleton_self _)
      rw [hstart] at hnext
      exact hnext
    obtain ⟨hcode, hwidth⟩ := iha hfirst hbody
    have hsecond : move (offset + 2 + a.width + 2 : Nat) =
        (offset' + 2 + a.withoutHalts.width + 2 : Nat) := by
      have hnext := hjump _ (List.mem_singleton_self _)
      rw [hwidth] at hnext
      exact hnext
    obtain ⟨hcode', hwidth'⟩ := ihb hsecond halternative
    constructor
    · have htarget : Code.withoutHalts move [.jumpIfFalse (offset + 2 + a.width + 2 : Nat)] =
          [.jumpIfFalse (offset' + 2 + a.withoutHalts.width + 2 : Nat)] :=
        congrArg (fun target => [Instruction.jumpIfFalse target]) hsecond
      have htarget' : Code.withoutHalts move [.jump (offset + 2 + a.width + 2 + b.width : Nat)] =
          [.jump (offset' + 2 + a.withoutHalts.width + 2 + b.withoutHalts.width : Nat)] :=
        congrArg (fun target => [Instruction.jump target]) hwidth'
      simp only [withoutHalts, code_branch, Code.withoutHalts_append, htarget, hcode, htarget',
        hcode', pool_withoutHalts]
    · have hend : offset + (branch a b).width = offset + 2 + a.width + 2 + b.width := by
        simp only [width]
        omega
      rw [hend, hwidth']
      simp only [withoutHalts, width]
      omega

-- A target behind the halt moves by one word, a target at the halt stays.
example : Code.withoutHalts (closeUp (haltOffsets (locate 0 [.jumpIfFalse 4, .jump 5, .halt])))
    [.jumpIfFalse 4, .jump 5, .halt] = [.jumpIfFalse 4, .jump 4] := by decide

end Plan

/-! ### Programs with more halts -/

/-- A program is another one with so many halts inserted: both end with a halt, which is the only
one of the other program, and without the halts before its last one, and with jump targets closed up
accordingly, its instructions are those of the other program. -/
structure Program.InsertsHalts (count : Nat) (p q : Program) : Prop where
  name : p.name = q.name
  constants : p.constants = q.constants
  decodes : p.decoded.fault = none ∧ q.decoded.fault = none
  halts : (p.decoded.instructions.map Located.instruction).count .halt = count + 1
  halts_once : (q.decoded.instructions.map Located.instruction).count .halt = 1
  instructions : ∃ body last, p.decoded.instructions = body ++ [⟨last, .halt⟩] ∧
    q.decoded.instructions.map Located.instruction =
      Code.withoutHalts (Code.closeUp (Code.haltOffsets body)) (body.map Located.instruction) ++
        [.halt]

theorem Plan.count_halt_code (a : Plan) (offset : Nat) (cs : List Constant) :
    (a.code offset cs).count .halt = a.opcodes.count .halt := by
  rw [← a.map_opcode_code offset cs]
  induction a.code offset cs with
  | nil => rfl
  | cons i is ih =>
    rw [List.map_cons, List.count_cons, List.count_cons, ih]
    cases i <;> rfl

theorem Plan.insertsHalts_program (name : String) (a : Plan) :
    (a.program name).InsertsHalts (a.opcodes.count .halt) (a.withoutHalts.program name) := by
  have hbody : Code.withoutHalts (Code.closeUp (Code.haltOffsets (Code.locate 0 (a.code 0 []))))
      (a.code 0 []) = a.withoutHalts.code 0 [] :=
    (code_withoutHalts a (Code.closeUp_zero _) (Code.closesUp_closeUp _)).1
  exact
    { name := rfl
      constants := (a.pool_withoutHalts []).symm
      decodes := by simp only [decoded_program, and_self]
      halts := by
        rw [decoded_program, Code.map_instruction_locate, List.count_append, count_halt_code]
        rfl
      halts_once := by
        rw [decoded_program, Code.map_instruction_locate, ← hbody, List.count_append,
          List.count_eq_zero.2 (Code.halt_notMem_withoutHalts _ _)]
        rfl
      instructions := by
        refine ⟨Code.locate 0 (a.code 0 []), a.width, ?_, ?_⟩
        · simp [decoded_program, Code.locate_append, Code.locate]
        · rw [decoded_program, Code.map_instruction_locate, Code.map_instruction_locate, hbody] }

/-- **Empty statements that halt add halts to a program, and nothing else.**  With and without them
the same scripts are compiled, the others fail alike, and the same scope is left; a program has one
more halt for each empty statement of the tree, and jumps lead to where they led. -/
theorem Script.emptyHalts_only_inserts (source : ByteArray) (root : SyntaxTree) (s : Settings)
    (scope : Scope α) :
    let halting := (Script.ofTree source root).compile (s.withHalts true) scope
    let silent := (Script.ofTree source root).compile (s.withHalts false) scope
    halting.scope = silent.scope ∧
      ((∃ f, halting.result = .error f ∧ silent.result = .error f) ∨
        ∃ p q, halting.result = .ok p ∧ silent.result = .ok q ∧
          p.InsertsHalts (root.allStatements.countP (·.kind == "empty_statement")) q) := by
  refine ⟨scope_compile_withHalts s true false _ scope, ?_⟩
  have hplans := Script.plan_withHalts s scope (Script.ofTree source root)
  cases hplan : (Script.ofTree source root).plan (s.withHalts true) scope with
  | ok a =>
    rw [hplan] at hplans
    have hcount : a.opcodes.count .halt =
        root.allStatements.countP (·.kind == "empty_statement") := by
      have haccount := (accounts_of_plan hplan).halt
      simp only [Settings.withHalts, List.count_append, List.count_singleton_self, if_true]
        at haccount
      omega
    refine .inr ⟨_, _, (compile_of_plan hplan).1, (compile_of_plan hplans).1, ?_⟩
    rw [← hcount]
    exact a.insertsHalts_program s.name
  | error f =>
    rw [hplan] at hplans
    cases f with
    | refused e =>
      exact .inl ⟨_, (compile_of_refused hplan).1, (compile_of_refused hplans).1⟩
    | broken why => exact .inl ⟨_, (compile_of_broken hplan).1, (compile_of_broken hplans).1⟩

end StackScript
