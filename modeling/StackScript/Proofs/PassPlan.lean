import StackScript.Proofs.ScriptPlan

/-!
# Passes follow plans

A pass writes its jumps before their targets are known and patches them later, looks constants up
in a table, and can stop anywhere.  This file shows that nothing of this shows in the result:

* `Build.Meets` : steps meet a plan when they complete it, wherever they start, or stop with its
  fault and have only added to what was there (`Pass.Completes`, `Pass.Extends`);
* `Stmt.build_meets` : the steps of a statement meet its plan;
* `Script.compile_of_plan`, `Script.compile_of_refused`, `Script.compile_of_broken` : hence what
  `Script.compile` gives, and what scope it leaves, in terms of `Script.plan` alone.
-/

namespace StackScript

variable {α β : Type}

namespace Pass

/-- The code so far. -/
def code (p : Pass α) : List Int := p.assembler.toList

/-- The constants so far. -/
def constants (p : Pass α) : List Constant := p.pool.toList

@[simp] theorem size_assembler (p : Pass α) : p.assembler.size = p.code.length := by
  simp [code, Assembler.size, Assembler.toList]

@[simp] theorem code_emit (p : Pass α) (i : Instruction) :
    (p.emit i).code = p.code ++ i.words := by
  simp [emit, code, Assembler.emit, Assembler.toList]

@[simp] theorem pool_emit (p : Pass α) (i : Instruction) : (p.emit i).pool = p.pool := rfl

@[simp] theorem constants_emit (p : Pass α) (i : Instruction) :
    (p.emit i).constants = p.constants := rfl

@[simp] theorem scope_emit (p : Pass α) (i : Instruction) : (p.emit i).scope = p.scope := rfl

@[simp] theorem code_patch (p : Pass α) (position : Nat) :
    (p.patch position).code = p.code.set position p.code.length := by
  simp [patch, code, Assembler.patch, Assembler.toList, Assembler.size]

@[simp] theorem pool_patch (p : Pass α) (position : Nat) : (p.patch position).pool = p.pool := rfl

@[simp] theorem constants_patch (p : Pass α) (position : Nat) :
    (p.patch position).constants = p.constants := rfl

@[simp] theorem scope_patch (p : Pass α) (position : Nat) :
    (p.patch position).scope = p.scope := rfl

@[simp] theorem code_define (p : Pass α) (name : String) : (p.define name).2.code = p.code := rfl

@[simp] theorem pool_define (p : Pass α) (name : String) : (p.define name).2.pool = p.pool := rfl

@[simp] theorem constants_define (p : Pass α) (name : String) :
    (p.define name).2.constants = p.constants := rfl

@[simp] theorem scope_define (p : Pass α) (name : String) :
    (p.define name).2.scope = (p.scope.define name none).2 := rfl

@[simp] theorem slot_define (p : Pass α) (name : String) :
    (p.define name).1 = p.scope.slotCount := rfl

/-! ### What steps do to a pass -/

/-- The code of a plan stands behind the code that was there, at the offset it was meant for. -/
structure Adds (p : Pass α) (a : Plan) (q : Pass α) : Prop where
  code : q.code = p.code ++ Code.encode (a.code p.code.length p.constants)
  constants : q.constants = a.pool p.constants

/-- A plan has been carried out, and its names are defined. -/
structure Completes (p : Pass α) (a : Plan) (names : List String) (q : Pass α) : Prop
    extends p.Adds a q where
  indexed : q.pool.Indexed
  scope : q.scope = p.scope.defineAll names

/-- Something has been added behind what was there. -/
structure Extends (p q : Pass α) : Prop where
  code : p.code <+: q.code
  constants : p.constants <+: q.constants
  indexed : q.pool.Indexed
  scope : ∃ names, q.scope = p.scope.defineAll names

theorem Extends.refl {p : Pass α} (hp : p.pool.Indexed) : p.Extends p :=
  ⟨List.prefix_refl _, List.prefix_refl _, hp, [], rfl⟩

theorem Extends.trans {p q r : Pass α} (h : p.Extends q) (h' : q.Extends r) : p.Extends r := by
  obtain ⟨names, hn⟩ := h.scope
  obtain ⟨more, hm⟩ := h'.scope
  exact ⟨h.code.trans h'.code, h.constants.trans h'.constants, h'.indexed, names ++ more, by
    rw [hm, hn, Scope.defineAll_append]⟩

theorem Completes.extends {p q : Pass α} {a : Plan} {names : List String}
    (h : p.Completes a names q) : p.Extends q := by
  refine ⟨?_, ?_, h.indexed, names, h.scope⟩
  · rw [h.code]; exact List.prefix_append _ _
  · rw [h.constants]; exact a.prefix_pool _

theorem Adds.skip (p : Pass α) : p.Adds .skip p := ⟨by simp [Plan.code], rfl⟩

theorem Adds.andThen {p q r : Pass α} {a b : Plan} (h : p.Adds a q) (h' : q.Adds b r) :
    p.Adds (.andThen a b) r := by
  constructor
  · rw [h'.code, h.constants]
    simp [h.code, Plan.code]
  · rw [h'.constants, h.constants, Plan.pool]

theorem Completes.skip {p : Pass α} (hp : p.pool.Indexed) : p.Completes .skip [] p :=
  ⟨.skip p, hp, rfl⟩

theorem Completes.andThen {p q r : Pass α} {a b : Plan} {names more : List String}
    (h : p.Completes a names q) (h' : q.Completes b more r) :
    p.Completes (.andThen a b) (names ++ more) r := by
  refine ⟨h.toAdds.andThen h'.toAdds, h'.indexed, ?_⟩
  rw [h'.scope, h.scope, Scope.defineAll_append]

theorem extends_emit {p : Pass α} (hp : p.pool.Indexed) (i : Instruction) :
    p.Extends (p.emit i) :=
  ⟨by simp, by simp, hp, [], rfl⟩

theorem extends_define {p : Pass α} (hp : p.pool.Indexed) (name : String) :
    p.Extends (p.define name).2 :=
  ⟨by simp, by simp, hp, [name], rfl⟩

theorem Completes.of_define {p q : Pass α} {a : Plan} {names : List String} {name : String}
    (h : (p.define name).2.Completes a names q) : p.Completes a (name :: names) q :=
  ⟨⟨h.code, h.constants⟩, h.indexed, h.scope⟩

end Pass

namespace Build

open Planned

/-- Steps that meet a plan: they complete it, or stop with its fault and have only added to what
was there.  The plan may depend on the scope, and on nothing else of the state. -/
structure Meets (m : Build α Unit) (plan : Scope α → Planned) (names : List String) : Prop where
  completes : ∀ p a, p.pool.Indexed → plan p.scope = .ok a →
    ∃ q, m.run p = .ok () q ∧ p.Completes a names q
  stops : ∀ p f, p.pool.Indexed → plan p.scope = .error f →
    ∃ q, m.run p = .error f q ∧ p.Extends q

/-- A step that only decides. -/
def ofExcept : Except Fault β → Build α β
  | .ok b => pure b
  | .error f => throw f

theorem refuse_eq (pos : Position) (cause : Cause) :
    (refuse pos cause : Build α β) = ofExcept (refusal pos cause) := rfl

theorem read_eq (l : Lexeme) : (read l : Build α String) = ofExcept (readable l) := by
  cases l <;> rfl

theorem enter_eq (s : Settings) (depth : Nat) (pos : Position) :
    (enter s depth pos : Build α Unit) = ofExcept (s.allow depth pos) := by
  unfold enter Settings.allow
  split <;> rfl

/-- Deciding first. -/
theorem Meets.decide {x : Except Fault β} {k : β → Build α Unit} {plan : β → Scope α → Planned}
    {names : List String} (h : ∀ b, x = .ok b → (k b).Meets (plan b) names) :
    (ofExcept x >>= k).Meets (fun scope => x >>= fun b => plan b scope) names := by
  cases x with
  | ok b => exact ⟨(h b rfl).completes, (h b rfl).stops⟩
  | error f =>
    refine ⟨fun p a _ ha => by simp [bind, Except.bind] at ha, fun p g hp hg => ?_⟩
    obtain rfl : f = g := by simpa [bind, Except.bind] using hg
    exact ⟨p, rfl, .refl hp⟩

theorem meets_fault (f : Fault) (names : List String) :
    (ofExcept (.error f) : Build α Unit).Meets (fun _ => .error f) names := by
  refine ⟨fun p a _ ha => by simp at ha, fun p g hp hg => ?_⟩
  obtain rfl : f = g := by simpa using hg
  exact ⟨p, rfl, .refl hp⟩

theorem meets_skip : (pure () : Build α Unit).Meets (fun _ => .ok .skip) [] := by
  refine ⟨fun p a hp ha => ?_, fun p f _ hf => by simp at hf⟩
  obtain rfl : Plan.skip = a := by simpa using ha
  exact ⟨p, rfl, .skip hp⟩

/-- Steps that look at the scope first, and then do what meets the plan for that scope. -/
theorem Meets.look {m : Build α Unit} {plan : Scope α → Planned} {names : List String}
    (h : ∀ p, ∃ n : Build α Unit, m.run p = n.run p ∧ n.Meets (fun _ => plan p.scope) names) :
    m.Meets plan names := by
  refine ⟨fun p a hp ha => ?_, fun p f hp hf => ?_⟩
  · obtain ⟨n, hrun, hn⟩ := h p
    rw [hrun]
    exact hn.completes p a hp ha
  · obtain ⟨n, hrun, hn⟩ := h p
    rw [hrun]
    exact hn.stops p f hp hf

/-- One step after the other. -/
theorem Meets.seq {m n : Build α Unit} {x y : Scope α → Planned} {names more : List String}
    (hm : m.Meets x names) (hn : n.Meets y more) :
    (m >>= fun _ => n).Meets (fun scope => join (x scope) (y (scope.defineAll names)))
      (names ++ more) := by
  refine ⟨fun p c hp hc => ?_, fun p f hp hf => ?_⟩
  · obtain ⟨a, b, ha, hb, rfl⟩ := join_eq_ok_iff.1 hc
    obtain ⟨q, hq, hpq⟩ := hm.completes p a hp ha
    obtain ⟨r, hr, hqr⟩ := hn.completes q b hpq.indexed (by rw [hpq.scope, hb])
    exact ⟨r, by simp [hq, hr], hpq.andThen hqr⟩
  · rcases join_eq_error_iff.1 hf with hx | ⟨a, ha, hy⟩
    · obtain ⟨q, hq, hpq⟩ := hm.stops p f hp hx
      exact ⟨q, by simp [hq], hpq⟩
    · -- What the first part completed stays in place when the second one stops.
      obtain ⟨q, hq, hpq⟩ := hm.completes p a hp ha
      obtain ⟨r, hr, hqr⟩ := hn.stops q f hpq.indexed (by rw [hpq.scope, hy])
      exact ⟨r, by simp [hq, hr], hpq.extends.trans hqr⟩

theorem Meets.emit {i : Instruction} {a : Plan} (hcode : ∀ offset cs, a.code offset cs = [i])
    (hpool : ∀ cs, a.pool cs = cs) : (emit i : Build α Unit).Meets (fun _ => .ok a) [] := by
  refine ⟨fun p b hp hb => ?_, fun p f _ hf => by simp at hf⟩
  obtain rfl : a = b := by simpa using hb
  exact ⟨p.emit i, rfl, ⟨by simp [hcode], by simp [hpool]⟩, hp, rfl⟩

theorem meets_pushConstant (c : Constant) :
    (pushConstant c : Build α Unit).Meets (fun _ => .ok (.push c)) [] := by
  refine ⟨fun p b hp hb => ?_, fun p f _ hf => by simp at hf⟩
  obtain rfl : Plan.push c = b := by simpa using hb
  obtain ⟨hplace, hlist, hindexed⟩ := Pool.add_spec hp c
  refine ⟨p.pushConstant c, rfl, ⟨?_, hlist⟩, hindexed, rfl⟩
  simp only [Pass.pushConstant, Pass.code_emit, hplace]
  simp [Plan.code, Pass.constants, Pass.code]

end Build

/-! ### Jumps -/

namespace Pass

open Instruction

@[simp] theorem words_jump (t : Int) : (jump t).words = [Opcode.jump.word, t] := rfl

@[simp] theorem words_jumpIfFalse (t : Int) :
    (jumpIfFalse t).words = [Opcode.jumpIfFalse.word, t] := rfl

/-- Patching an operand word changes that word only. -/
theorem set_operand (w rest : List Int) (op x y : Int) :
    (w ++ op :: x :: rest).set (w.length + 1) y = w ++ op :: y :: rest := by
  simp

/-- The code between the branches: the jump over the body is patched, the one behind it is not. -/
theorem code_between {p q : Pass α} {a : Plan} {names : List String}
    (h : (p.emit (jumpIfFalse pendingTarget)).Completes a names q) :
    ((q.emit (jump pendingTarget)).patch (p.code.length + 1)).code =
      p.code ++ Code.encode
        (jumpIfFalse (p.code.length + 2 + a.width + 2 : Nat) ::
          a.code (p.code.length + 2) p.constants ++ [jump pendingTarget]) := by
  have hq : q.code = p.code ++ Opcode.jumpIfFalse.word :: pendingTarget ::
      Code.encode (a.code (p.code.length + 2) p.constants) := by
    rw [h.code]; simp
  simp only [code_patch, code_emit, words_jump, hq, List.append_assoc, List.cons_append]
  rw [set_operand]
  simp
  omega

theorem extends_between {p q : Pass α} {a : Plan} {names : List String}
    (h : (p.emit (jumpIfFalse pendingTarget)).Completes a names q) :
    p.Extends ((q.emit (jump pendingTarget)).patch (p.code.length + 1)) := by
  refine ⟨?_, ?_, h.indexed, names, h.scope⟩
  · rw [code_between h]; exact List.prefix_append _ _
  · rw [constants_patch, constants_emit, h.constants]; exact a.prefix_pool _

theorem Completes.branch {p q r : Pass α} {a b : Plan} {names more : List String}
    (h : (p.emit (jumpIfFalse pendingTarget)).Completes a names q)
    (h' : ((q.emit (jump pendingTarget)).patch (p.code.length + 1)).Completes b more r) :
    p.Completes (.branch a b) (names ++ more) (r.patch (q.code.length + 1)) := by
  have hbetween := code_between h
  have hlen : ((q.emit (jump pendingTarget)).patch (p.code.length + 1)).code.length =
      p.code.length + 2 + a.width + 2 := by
    rw [hbetween]; simp; omega
  refine ⟨⟨?_, ?_⟩, h'.indexed, ?_⟩
  · -- `w` is the code up to the jump behind the body
    obtain ⟨w, hw⟩ : ∃ w, w = p.code ++ Code.encode
        (jumpIfFalse (p.code.length + 2 + a.width + 2 : Nat) ::
          a.code (p.code.length + 2) p.constants) := ⟨_, rfl⟩
    have hq : q.code.length = w.length := by
      rw [hw, h.code]; simp
    have hr : r.code = w ++ Opcode.jump.word :: pendingTarget ::
        Code.encode (b.code (p.code.length + 2 + a.width + 2) (a.pool p.constants)) := by
      rw [h'.code, hlen, constants_patch, constants_emit, h.constants, constants_emit, hbetween, hw]
      simp
    rw [code_patch, hr, hq, set_operand, hw]
    simp [Plan.code]
    omega
  · rw [constants_patch, h'.constants, constants_patch, constants_emit, h.constants]
    rfl
  · rw [scope_patch, h'.scope, scope_patch, scope_emit, h.scope, Scope.defineAll_append]
    rfl

end Pass

namespace Build

open Planned

/-- Two jumps written with pending targets, and patched where their targets are. -/
theorem Meets.branch {m n : Build α Unit} {x y : Scope α → Planned} {names more : List String}
    (hm : m.Meets x names) (hn : n.Meets y more) :
    Meets (do
        let skip ← emitJump .jumpIfFalse
        m
        let done ← emitJump .jump
        patch skip
        n
        patch done)
      (fun scope => fork (x scope) (y (scope.defineAll names))) (names ++ more) := by
  refine ⟨fun p c hp hc => ?_, fun p f hp hf => ?_⟩
  · obtain ⟨a, b, ha, hb, rfl⟩ := fork_eq_ok_iff.1 hc
    obtain ⟨q, hq, hpq⟩ := hm.completes (p.emit (.jumpIfFalse pendingTarget)) a hp ha
    obtain ⟨r, hr, hqr⟩ := hn.completes ((q.emit (.jump pendingTarget)).patch (p.code.length + 1)) b
      hpq.indexed (by simpa [hpq.scope] using hb)
    refine ⟨r.patch (q.code.length + 1), ?_, hpq.branch hqr⟩
    simp [emitJump, patch, hq, hr]
  · rcases fork_eq_error_iff.1 hf with hx | ⟨a, ha, hy⟩
    · obtain ⟨q, hq, hpq⟩ := hm.stops (p.emit (.jumpIfFalse pendingTarget)) f hp hx
      exact ⟨q, by simp [emitJump, hq], (Pass.extends_emit hp _).trans hpq⟩
    · obtain ⟨q, hq, hpq⟩ := hm.completes (p.emit (.jumpIfFalse pendingTarget)) a hp ha
      obtain ⟨r, hr, hqr⟩ := hn.stops ((q.emit (.jump pendingTarget)).patch (p.code.length + 1)) f
        hpq.indexed (by simpa [hpq.scope] using hy)
      exact ⟨r, by simp [emitJump, patch, hq, hr], (Pass.extends_between hpq).trans hqr⟩

end Build

/-! ### Expressions -/

open Build Planned

theorem pushNumber_eq (pos : Position) (text : String) :
    (pushNumber pos text : Build α Unit) =
      ofExcept (numberConstant pos text) >>= fun c => pushConstant c := by
  unfold pushNumber numberConstant
  split
  · rfl
  · cases Literal.number? text <;> rfl

theorem pushString_eq (pos : Position) (text : String) :
    (pushString pos text : Build α Unit) =
      ofExcept (stringConstant pos text) >>= fun c => pushConstant c := by
  unfold pushString stringConstant
  cases Literal.string text with
  | ok t => rfl
  | error fault => cases fault <;> rfl

theorem pushVariable_meets (pos : Position) (name : String) :
    (pushVariable pos name : Build α Unit).Meets
      (fun scope => do return .load (← scope.slotOf pos name)) [] := by
  refine .look fun p => ?_
  cases hslot : p.scope.slot? name with
  | some slot =>
    refine ⟨.emit (.loadContext slot), by simp [pushVariable, hslot], ?_⟩
    rw [Scope.slotOf, hslot]
    exact .emit (fun _ _ => rfl) fun _ => rfl
  | none =>
    rw [Scope.slotOf, hslot]
    cases hglobal : p.scope.isGlobal name with
    | true =>
      refine ⟨.refuse pos (.global name), ?_, meets_fault _ _⟩
      simp [pushVariable, hslot, hglobal]
    | false =>
      refine ⟨.refuse pos (.unbound name), ?_, meets_fault _ _⟩
      simp [pushVariable, hslot, hglobal]

/-- The instruction of a sign is that of its operation. -/
theorem binaryInstruction?_eq (sign : String) :
    binaryInstruction? sign = (Operation.ofSign? sign).map Operation.instruction := by
  unfold binaryInstruction? Operation.ofSign?
  split
  all_goals simp_all [Operation.instruction]

theorem emitOperator_meets (pos : Position) (sign : String) :
    (match binaryInstruction? sign with
      | some i => Build.emit i
      | none => Build.refuse pos (.operator sign) : Build α Unit).Meets
      (fun _ => do return .operate (← operationOf pos sign)) [] := by
  rw [binaryInstruction?_eq, operationOf]
  cases Operation.ofSign? sign with
  | none => exact meets_fault _ _
  | some op => exact .emit (fun _ _ => rfl) fun _ => rfl

theorem Expr.build_meets (s : Settings) (depth : Nat) (e : Expr) :
    (e.build s depth : Build α Unit).Meets (fun scope => e.plan s depth scope) [] := by
  induction e generalizing depth with
  | number pos text =>
    simp only [Expr.build, Expr.plan, enter_eq, read_eq, pushNumber_eq]
    exact .decide fun _ _ => .decide fun _ _ => .decide fun c _ => meets_pushConstant c
  | boolean pos value =>
    simp only [Expr.build, Expr.plan, enter_eq]
    exact .decide fun _ _ => meets_pushConstant _
  | string pos text =>
    simp only [Expr.build, Expr.plan, enter_eq, read_eq, pushString_eq]
    exact .decide fun _ _ => .decide fun _ _ => .decide fun c _ => meets_pushConstant c
  | identifier pos name =>
    simp only [Expr.build, Expr.plan, enter_eq, read_eq]
    exact .decide fun _ _ => .decide fun name _ => pushVariable_meets pos name
  | parenthesized pos inner ih =>
    simp only [Expr.build, Expr.plan, enter_eq]
    exact .decide fun _ _ => ih (depth + 1)
  | binary pos left right operator ihl ihr =>
    simp only [Expr.build, Expr.plan, enter_eq, read_eq]
    have hsign : Meets (α := α) _ _ [] :=
      .decide (x := readable operator) fun sign _ => emitOperator_meets pos sign
    exact .decide fun _ _ => (ihl (depth + 1)).seq ((ihr (depth + 1)).seq hsign)
  | unsupported pos kind => exact meets_fault _ _
  | broken why => exact meets_fault _ _

/-! ### Declarations -/

/-- Defining a name first.  What follows starts with the name in scope, and knows its slot. -/
theorem Build.Meets.define {k : Nat → Build α Unit} {x : Nat → Scope α → Planned} {name : String}
    (h : ∀ slot, (k slot).Meets (x slot) []) :
    (Build.define name >>= k).Meets
      (fun scope => x scope.slotCount (scope.define name none).2) [name] := by
  refine ⟨fun p a hp ha => ?_, fun p f hp hf => ?_⟩
  · obtain ⟨q, hq, hpq⟩ := (h p.scope.slotCount).completes (p.define name).2 a hp ha
    exact ⟨q, hq, hpq.of_define⟩
  · obtain ⟨q, hq, hpq⟩ := (h p.scope.slotCount).stops (p.define name).2 f hp hf
    exact ⟨q, hq, (Pass.extends_define hp name).trans hpq⟩

theorem bindName_meets (s : Settings) (depth : Nat) (value : Option Expr) (name : String) :
    (bindName s depth value name : Build α Unit).Meets (bindingPlan s depth value name) [name] := by
  cases value with
  | none => exact .define (k := fun _ => pure ()) (x := fun _ _ => .ok .skip) fun _ => meets_skip
  | some e =>
    have hstore (slot : Nat) : (Build.emit (.setContext slot) : Build α Unit).Meets
        (fun _ => .ok (.store slot)) [] := .emit (fun _ _ => rfl) fun _ => rfl
    exact .define fun slot => (e.build_meets s depth).seq (hstore slot)

theorem PropertyKey.read_eq (k : PropertyKey) :
    (k.read : Build α String) = ofExcept k.nameOf := by
  cases k with
  | name text => exact Build.read_eq text
  | computed pos | unsupported pos kind | broken why => rfl

theorem Property.read_eq (p : Property) : (p.read : Build α String) = ofExcept p.nameOf := by
  cases p with
  | shorthand name => exact Build.read_eq name
  | pair key => exact key.read_eq
  | unsupported pos kind => rfl

theorem Property.build_meets (s : Settings) (depth : Nat) (value : Option Expr)
    (ps : List Property) :
    (ps.forM fun p => do bindName s depth value (← p.read) : Build α Unit).Meets
      (fun scope => Property.planAll s depth value scope ps) (ps.flatMap Property.names) := by
  induction ps with
  | nil => exact meets_skip
  | cons p ps ih =>
    change ((p.read >>= bindName s depth value) >>= fun _ => ps.forM _).Meets _ _
    rw [bind_assoc, Property.read_eq]
    simp only [Property.planAll, List.flatMap_cons, Property.names]
    cases p.nameOf with
    | error f => exact .decide fun _ h => by cases h
    | ok name =>
      -- Only now do the names of the plan and the names that the steps define agree.
      exact (bindName_meets s depth value name).seq ih

mutual

theorem Pattern.build_meets (s : Settings) (depth : Nat) (value : Option Expr) (p : Pattern) :
    (p.build s depth value : Build α Unit).Meets (fun scope => p.plan s depth value scope)
      p.names := by
  cases p with
  | identifier pos name =>
    simp only [Pattern.build, Pattern.plan, Pattern.names, enter_eq, Build.read_eq]
    refine .decide fun _ _ => ?_
    cases name with
    | error why => exact .decide fun _ h => by cases h
    | ok name => exact bindName_meets s (depth + 1) value name
  | array pos elements =>
    simp only [Pattern.build, Pattern.plan, Pattern.names, enter_eq]
    exact .decide fun _ _ => Pattern.buildAll_meets s (depth + 1) value elements
  | object pos properties =>
    simp only [Pattern.build, Pattern.plan, Pattern.names, enter_eq]
    exact .decide fun _ _ => Property.build_meets s (depth + 1) value properties
  | unsupported pos kind => exact meets_fault _ _
  | broken why => exact meets_fault _ _

theorem Pattern.buildAll_meets (s : Settings) (depth : Nat) (value : Option Expr)
    (ps : List Pattern) :
    (Pattern.buildAll s depth value ps : Build α Unit).Meets
      (fun scope => Pattern.planAll s depth value scope ps) (Pattern.namesAll ps) := by
  cases ps with
  | nil => exact meets_skip
  | cons p ps =>
    simp only [Pattern.buildAll, Pattern.planAll, Pattern.namesAll]
    exact (Pattern.build_meets s depth value p).seq (Pattern.buildAll_meets s depth value ps)

end

theorem Declarator.build_meets (s : Settings) (depth : Nat) (ds : List Declarator) :
    (ds.forM fun d => d.target.build s depth d.value : Build α Unit).Meets
      (fun scope => Declarator.planAll s depth scope ds) (ds.flatMap fun d => d.target.names) := by
  induction ds with
  | nil => exact meets_skip
  | cons d ds ih =>
    change (d.target.build s depth d.value >>= fun _ => ds.forM _).Meets _ _
    simp only [Declarator.planAll, List.flatMap_cons]
    exact (Pattern.build_meets s depth d.value d.target).seq ih

/-! ### Statements -/

mutual

/-- **The steps of a statement meet its plan.** -/
theorem Stmt.build_meets (s : Settings) (depth : Nat) (t : Stmt) :
    (t.build s depth : Build α Unit).Meets (fun scope => t.plan s depth scope) t.names := by
  cases t with
  | expression pos value =>
    simp only [Stmt.build, Stmt.plan, Stmt.names, enter_eq]
    exact .decide fun _ _ => value.build_meets s (depth + 1)
  | lexical pos kind declarators =>
    simp only [Stmt.build, Stmt.plan, Stmt.names, enter_eq, Build.read_eq]
    refine .decide fun _ _ => .decide fun kind _ => ?_
    by_cases hk : kind = "let"
    · simpa [hk] using Declarator.build_meets s (depth + 1) declarators
    · simp only [ne_eq, hk, not_false_eq_true, ↓reduceIte, refuse_eq]
      exact .decide fun _ h => by cases h
  | foreign pos kind =>
    simp only [Stmt.build, Stmt.plan, Stmt.names, enter_eq]
    exact .decide fun _ _ => meets_fault _ _
  | ifThen pos test body =>
    simp only [Stmt.build, Stmt.plan, Stmt.names, enter_eq]
    refine .decide fun _ _ => ?_
    -- Without an alternative both jumps are written all the same, the second one to the end.
    have hbranch := (Stmt.build_meets s (depth + 1) body).branch meets_skip
    simpa using (test.build_meets s (depth + 1)).seq hbranch
  | ifElse pos test body alternative =>
    simp only [Stmt.build, Stmt.plan, Stmt.names, enter_eq]
    exact .decide fun _ _ => (test.build_meets s (depth + 1)).seq
      ((Stmt.build_meets s (depth + 1) body).branch (Stmt.build_meets s (depth + 1) alternative))
  | empty pos =>
    simp only [Stmt.build, Stmt.plan, Stmt.names, enter_eq]
    refine .decide fun _ _ => ?_
    cases s.emptyHalts with
    | true => exact .emit (fun _ _ => rfl) fun _ => rfl
    | false => exact meets_skip
  | block pos body =>
    simp only [Stmt.build, Stmt.plan, Stmt.names, enter_eq]
    exact .decide fun _ _ => Stmt.buildAll_meets s (depth + 1) body
  | unsupported pos kind => exact meets_fault _ _
  | broken why => exact meets_fault _ _

theorem Stmt.buildAll_meets (s : Settings) (depth : Nat) (ts : List Stmt) :
    (Stmt.buildAll s depth ts : Build α Unit).Meets (fun scope => Stmt.planAll s depth scope ts)
      (Stmt.namesAll ts) := by
  cases ts with
  | nil => exact meets_skip
  | cons t ts =>
    simp only [Stmt.buildAll, Stmt.planAll, Stmt.namesAll]
    exact (Stmt.build_meets s depth t).seq (Stmt.buildAll_meets s depth ts)

end

/-! ### Scripts -/

theorem checkDamage_eq (d : Option Damage) :
    (checkDamage d : Build α Unit) = ofExcept (intact d) := by
  cases d with
  | none => rfl
  | some d =>
    obtain ⟨pos, text⟩ := d
    cases text <;> rfl

theorem Script.steps_meets (s : Settings) (script : Script) :
    Meets (α := α) (do
        checkDamage script.damage
        Stmt.buildAll s 0 (script.body.map TopLevel.stmt))
      (fun scope => script.plan s scope) script.names := by
  rw [checkDamage_eq]
  exact .decide fun _ _ => Stmt.buildAll_meets s 0 script.stmts

namespace Pass

@[simp] theorem code_start (scope : Scope α) : (start scope).code = [] := rfl

@[simp] theorem constants_start (scope : Scope α) : (start scope).constants = [] := rfl

@[simp] theorem program_finish (p : Pass α) (name : String) :
    (p.finish name).1 = ⟨name, p.code ++ Instruction.halt.words, p.constants⟩ := by
  simp only [finish, ← code_emit]
  rfl

@[simp] theorem scope_finish (p : Pass α) (name : String) : (p.finish name).2.scope = p.scope := rfl

/-- The program of a pass that has added the code of a plan from the start. -/
theorem Adds.finish {p : Pass α} {scope : Scope α} {a : Plan} (h : (start scope).Adds a p)
    (name : String) : (p.finish name).1 = a.program name := by
  simp [h.code, h.constants, Plan.program]

end Pass

namespace Script

variable {s : Settings} {scope : Scope α} {script : Script}

/-- **A script with a plan** is compiled to the program of the plan, and its names are defined. -/
theorem compile_of_plan {a : Plan} (h : script.plan s scope = .ok a) :
    (script.compile s scope).result = .ok (a.program s.name) ∧
      (script.compile s scope).scope = scope.defineAll script.names := by
  obtain ⟨q, hq, hpq⟩ := (steps_meets s script).completes (.start scope) a Pool.indexed_empty h
  simp only [compile, hq]
  exact ⟨congrArg _ (hpq.toAdds.finish s.name), hpq.scope⟩

/-- A script whose plan is refused is refused, and leaves the scope as it was. -/
theorem compile_of_refused {e : CompileError} (h : script.plan s scope = .error (.refused e)) :
    (script.compile s scope).result = .error (.refused e) ∧
      (scope.Level → (script.compile s scope).scope = scope) := by
  obtain ⟨q, hq, hpq⟩ := (steps_meets s script).stops (.start scope) _ Pool.indexed_empty h
  obtain ⟨names, hnames⟩ := hpq.scope
  simp only [compile, hq, hnames, true_and]
  exact fun hscope => Scope.rollback_defineAll hscope names

/-- A script whose plan breaks down breaks down, and some names stay defined. -/
theorem compile_of_broken {why : Breakdown} (h : script.plan s scope = .error (.broken why)) :
    (script.compile s scope).result = .error (.broken why) ∧
      ∃ names, (script.compile s scope).scope = scope.defineAll names := by
  obtain ⟨q, hq, hpq⟩ := (steps_meets s script).stops (.start scope) _ Pool.indexed_empty h
  simp only [compile, hq, true_and]
  exact hpq.scope

/-- Compilation keeps as many initial values as names. -/
theorem level_compile (hscope : scope.Level) (s : Settings) (script : Script) :
    (script.compile s scope).scope.Level := by
  cases hplan : script.plan s scope with
  | ok a =>
    rw [(compile_of_plan hplan).2]
    exact hscope.defineAll _
  | error f =>
    cases f with
    | refused e =>
      rw [(compile_of_refused hplan).2 hscope]
      exact hscope
    | broken why =>
      obtain ⟨-, names, hnames⟩ := compile_of_broken hplan
      rw [hnames]
      exact hscope.defineAll names

/-- Compilation gives a program exactly when there is a plan. -/
theorem compile_eq_ok_iff {program : Program} :
    (script.compile s scope).result = .ok program ↔
      ∃ a, script.plan s scope = .ok a ∧ program = a.program s.name := by
  constructor
  · intro h
    cases hp : script.plan s scope with
    | ok a => exact ⟨a, rfl, by simpa [(compile_of_plan hp).1, eq_comm] using h⟩
    | error f =>
      cases f with
      | refused e => simp [(compile_of_refused hp).1] at h
      | broken why => simp [(compile_of_broken hp).1] at h
  · rintro ⟨a, ha, rfl⟩
    exact (compile_of_plan ha).1

end Script

end StackScript
