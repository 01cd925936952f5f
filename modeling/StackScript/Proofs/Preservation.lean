import StackScript.Grammar
import StackScript.Proofs.PassPlan
import StackScript.Proofs.PlanRun
import StackScript.Proofs.TreeMeaning

/-!
# Compilation preserves the meaning of trees

What a compiled tree does on the machine is what the tree means.  The way there has three parts:
reading a tree keeps its meaning (`Script.eval_ofTree`), the plan of a script does what the script
means (this file), and the code of a plan does what the plan does (`Plan.reaches_code`).

* `Expr.Plans.exec` : the plan of an expression pushes its value;
* `Plan.Binds.exec` : the plan of a declaration binds the names as the declaration does;
* `Stmt.Plans.exec` : the plan of a statement has the effect of the statement;
* `SyntaxTree.HasNumeral` : the number literals of a tree;
* `Script.compile_preserves_meaning` : the run of a compiled tree is never stuck, reaches the final
  halt, and leaves the stack and the store that the tree leaves.
-/

namespace StackScript

variable {α V : Type} (m : Semantics V)

/-! ### Expressions -/

theorem Semantics.operator?_eq (sign : String) :
    m.operator? sign = (Operation.ofSign? sign).map (·.apply m) := by
  unfold operator? Operation.ofSign?
  split <;> simp_all [Operation.apply]

/-- The plan of an expression pushes the value of the expression. -/
theorem Expr.Plans.exec {scope : Scope α} {e : Expr} {a : Plan} (h : e.Plans scope a)
    (mem : Memory V) :
    ∃ v, e.eval m scope mem.store = some v ∧ a.exec m mem = some (mem.push v) := by
  induction h generalizing mem with
  | number _ hx => exact ⟨_, by simp [eval, Except.toOption, hx], rfl⟩
  | boolean pos value => exact ⟨_, rfl, rfl⟩
  | string ht => exact ⟨_, by simp [eval, Except.toOption, ht], rfl⟩
  | identifier hslot => exact ⟨_, by simp [eval, Except.toOption, hslot], rfl⟩
  | parenthesized _ ih => exact ih mem
  | @binary pos left right sign op a b _ _ hop ihl ihr =>
    obtain ⟨v, hv, ha⟩ := ihl mem
    -- The right side runs with the left value already on the stack, which it cannot see.
    obtain ⟨w, hw, hb⟩ := ihr (mem.push v)
    have hw : right.eval m scope mem.store = some w := hw
    refine ⟨op.apply m v w, ?_, ?_⟩
    · simp [eval, Except.toOption, m.operator?_eq, hop, hv, hw]
    · simp [ha, hb]

/-! ### Declarations -/

theorem evalBindings_append (value : Option (Scope α → (Nat → V) → Option V)) (scope : Scope α)
    (names more : List String) (mem : Memory V) :
    evalBindings value scope (names ++ more) mem =
      (evalBindings value scope names mem).bind
        (evalBindings value (scope.defineAll names) more) := by
  induction names generalizing scope mem with
  | nil => rfl
  | cons name names ih =>
    cases value with
    | none => exact ih _ mem
    | some f =>
      simp only [List.cons_append, evalBindings, ih, Scope.defineAll_cons]
      exact (Option.bind_assoc ..).symm

/-- The plan of a declaration binds the names as the declaration does. -/
theorem Plan.Binds.exec {value : Option Expr} {scope : Scope α} {names : List String} {a : Plan}
    (h : a.Binds value scope names) (mem : Memory V) :
    ∃ mem', evalBindings (value.map fun e σ store => e.eval m σ store) scope names mem =
        some mem' ∧
      a.exec m mem = some mem' := by
  induction h generalizing mem with
  | nothing value scope => exact ⟨mem, rfl, rfl⟩
  | declare scope name => exact ⟨mem, rfl, rfl⟩
  | @assign e scope name a he =>
    obtain ⟨v, hv, ha⟩ := he.exec m mem
    exact ⟨mem.assign scope.slotCount v, by simp [evalBindings, hv], by simp [ha]⟩
  | andThen ha hb iha ihb =>
    obtain ⟨mid, hmid, ha⟩ := iha mem
    obtain ⟨mem', hmem', hb⟩ := ihb mid
    exact ⟨mem', by simp [evalBindings_append, hmid, hmem'], by simp [ha, hb]⟩

theorem Declarator.PlansAll.exec {ds : List Declarator} {scope : Scope α} {a : Plan}
    (h : Declarator.PlansAll scope ds a) (mem : Memory V) :
    ∃ mem', Declarator.evalAll m scope ds mem = some mem' ∧ a.exec m mem = some mem' := by
  induction h generalizing mem with
  | nil scope => exact ⟨mem, rfl, rfl⟩
  | cons hd _ ih =>
    obtain ⟨mid, hmid, ha⟩ := hd.exec m mem
    obtain ⟨mem', hmem', hb⟩ := ih mid
    exact ⟨mem', by simp [evalAll, hmid, hmem'], by simp [ha, hb]⟩

/-! ### Statements -/

mutual

/-- The plan of a statement has the effect of the statement, unless empty statements halt. -/
theorem Stmt.Plans.exec {scope : Scope α} {t : Stmt} {a : Plan} (h : Stmt.Plans false scope t a)
    (mem : Memory V) : ∃ mem', t.eval m scope mem = some mem' ∧ a.exec m mem = some mem' := by
  cases h with
  | expression h =>
    obtain ⟨v, hv, ha⟩ := h.exec m mem
    exact ⟨mem.push v, by simp [eval, hv], ha⟩
  | lexical h =>
    obtain ⟨mem', hmem', ha⟩ := h.exec m mem
    exact ⟨mem', by simp [eval, Except.toOption, hmem'], ha⟩
  | ifThen ht hb =>
    obtain ⟨v, hv, ha⟩ := ht.exec m mem
    cases hfalsy : m.falsy v with
    | true => exact ⟨mem, by simp [eval, hv, hfalsy], by simp [ha, hfalsy]⟩
    | false =>
      obtain ⟨mem', hmem', hb⟩ := hb.exec mem
      exact ⟨mem', by simp [eval, hv, hfalsy, hmem'], by simp [ha, hfalsy, hb]⟩
  | ifElse ht hb hc =>
    obtain ⟨v, hv, ha⟩ := ht.exec m mem
    cases hfalsy : m.falsy v with
    | true =>
      obtain ⟨mem', hmem', hc⟩ := hc.exec mem
      exact ⟨mem', by simp [eval, hv, hfalsy, hmem'], by simp [ha, hfalsy, hc]⟩
    | false =>
      obtain ⟨mem', hmem', hb⟩ := hb.exec mem
      exact ⟨mem', by simp [eval, hv, hfalsy, hmem'], by simp [ha, hfalsy, hb]⟩
  | empty => exact ⟨mem, rfl, rfl⟩
  | block h => exact h.exec mem

theorem Stmt.PlansAll.exec {scope : Scope α} {ts : List Stmt} {a : Plan}
    (h : Stmt.PlansAll false scope ts a) (mem : Memory V) :
    ∃ mem', Stmt.evalAll m scope mem ts = some mem' ∧ a.exec m mem = some mem' := by
  cases h with
  | nil => exact ⟨mem, rfl, rfl⟩
  | cons ht hts =>
    obtain ⟨mid, hmid, ha⟩ := ht.exec mem
    obtain ⟨mem', hmem', hb⟩ := hts.exec mid
    exact ⟨mem', by simp [evalAll, hmid, hmem'], by simp [ha, hb]⟩

end

/-! ### Number literals of a tree -/

section Numerals

variable {source : ByteArray} {text : String}

/-- A number literal with this text stands in the tree. -/
def SyntaxTree.HasNumeral (source : ByteArray) (t : SyntaxTree) (text : String) : Prop :=
  ∃ c, t.Holds c ∧ c.kind = "number" ∧ c.text source = .ok text

theorem SyntaxTree.HasNumeral.of_holds {t c : SyntaxTree} (h : c.HasNumeral source text)
    (hc : t.Holds c) : t.HasNumeral source text := by
  obtain ⟨d, hd, hkind, htext⟩ := h
  exact ⟨d, hc.trans hd, hkind, htext⟩

theorem SyntaxTree.HasNumeral.of_child {t c : SyntaxTree} (h : c.HasNumeral source text)
    (hc : c ∈ t.children) : t.HasNumeral source text := h.of_holds (.single hc)

/-- Where a child may be missing, number literals are those of the child. -/
theorem Expr.mem_numerals_getD {child : Option SyntaxTree} {why : Breakdown}
    (h : text ∈ ((child.map (Expr.ofTree source)).getD (.broken why)).numerals) :
    ∃ c ∈ child, text ∈ (Expr.ofTree source c).numerals := by
  cases child with
  | none => cases h
  | some c => exact ⟨c, rfl, h⟩

theorem Stmt.mem_numerals_getD {child : Option SyntaxTree} {why : Breakdown}
    (h : text ∈ ((child.map (Stmt.ofTree source)).getD (.broken why)).numerals) :
    ∃ c ∈ child, text ∈ (Stmt.ofTree source c).numerals := by
  cases child with
  | none => cases h
  | some c => exact ⟨c, rfl, h⟩

section Children

variable {t : SyntaxTree} (ih : ∀ c ∈ t.children,
  text ∈ (Expr.ofTree source c).numerals → c.HasNumeral source text)
include ih

theorem Expr.hasNumeral_ofFirst (h : text ∈ (Expr.ofFirst source t.children).numerals) :
    t.HasNumeral source text := by
  rw [Expr.ofFirst_eq] at h
  obtain ⟨c, hc, htext⟩ := Expr.mem_numerals_getD h
  have hmem := SyntaxTree.mem_children_of_mem_content (t := t) (List.mem_of_head? hc)
  exact (ih c hmem htext).of_child hmem

theorem Expr.hasNumeral_ofField (name : String)
    (h : text ∈ (Expr.ofField source name t.children).numerals) : t.HasNumeral source text := by
  rw [Expr.ofField_eq] at h
  obtain ⟨c, hc, htext⟩ := Expr.mem_numerals_getD h
  have hmem := SyntaxTree.mem_children_of_part? (t := t) hc
  exact (ih c hmem htext).of_child hmem

end Children

theorem Expr.hasNumeral_ofTree {t : SyntaxTree} (h : text ∈ (Expr.ofTree source t).numerals) :
    t.HasNumeral source text := by
  induction t using SyntaxTree.induction_children with
  | h t ih =>
    have hfirst := Expr.hasNumeral_ofFirst ih
    have hfield := Expr.hasNumeral_ofField ih
    obtain ⟨i, cs⟩ := t
    rw [Expr.ofTree] at h
    split at h
    · next hkind =>
      refine ⟨_, .refl, hkind, ?_⟩
      simp only [numerals] at h
      cases htext : (SyntaxTree.node i cs).text source with
      | ok word => simp_all [Except.toOption]
      | error why => simp [htext, Except.toOption] at h
    · cases h
    · cases h
    · cases h
    · cases h
    · exact hfirst h
    · rcases List.mem_append.1 h with h | h
      · exact hfield _ h
      · exact hfield _ h
    · cases h

theorem Stmt.mem_numeralsAll {ts : List Stmt} :
    text ∈ Stmt.numeralsAll ts ↔ ∃ t ∈ ts, text ∈ t.numerals := by
  induction ts with
  | nil => simp [numeralsAll]
  | cons t ts ih => simp [numeralsAll, ih]

theorem Declarator.hasNumeral_ofTree {t : SyntaxTree}
    (h : text ∈ (Declarator.ofTree source t).numerals) : t.HasNumeral source text := by
  obtain ⟨e, he, htext⟩ := List.mem_flatMap.1 h
  obtain ⟨c, hc, rfl⟩ := Option.map_eq_some_iff.1 (Option.mem_toList.1 he)
  exact (Expr.hasNumeral_ofTree htext).of_child (SyntaxTree.mem_children_of_part? hc)

section Branches

variable {t : SyntaxTree} (ih : ∀ c ∈ t.children, ∀ d, c.Holds d →
  text ∈ (Stmt.ofTree source d).numerals → d.HasNumeral source text)
include ih

theorem Stmt.hasNumeral_ofField? (name : String)
    (h : text ∈ ((Stmt.ofField? source name t.children).getD (.broken .noPart)).numerals) :
    t.HasNumeral source text := by
  rw [Stmt.ofField?_eq] at h
  obtain ⟨c, hc, htext⟩ := Stmt.mem_numerals_getD h
  have hmem := SyntaxTree.mem_children_of_part? (t := t) hc
  exact (ih c hmem c .refl htext).of_child hmem

theorem Stmt.hasNumeral_ofAlternative? {u : Stmt}
    (hu : Stmt.ofAlternative? source t.children = some u) (h : text ∈ u.numerals) :
    t.HasNumeral source text := by
  rw [Stmt.ofAlternative?_eq] at hu
  obtain ⟨c, hpart, rfl⟩ := Option.map_eq_some_iff.1 hu
  have hc : c ∈ t.children := SyntaxTree.mem_children_of_part? hpart
  split at h
  · obtain ⟨d, hhead, htext⟩ := Stmt.mem_numerals_getD h
    have hd : c.Holds d :=
      .single (SyntaxTree.mem_children_of_mem_content (List.mem_of_head? hhead))
    exact (ih c hc d hd htext).of_holds (.head hc hd)
  · exact (ih c hc c .refl h).of_child hc

end Branches

theorem Stmt.hasNumeral_ofTree {t : SyntaxTree} (h : text ∈ (Stmt.ofTree source t).numerals) :
    t.HasNumeral source text := by
  induction t using SyntaxTree.induction_below with
  | h t ih =>
    have hexpr : ∀ c ∈ t.children, text ∈ (Expr.ofTree source c).numerals → _ := fun c _ =>
      Expr.hasNumeral_ofTree
    have hfirst := Expr.hasNumeral_ofFirst hexpr
    have htest := Expr.hasNumeral_ofField hexpr "condition"
    have hbody := Stmt.hasNumeral_ofField? ih "consequence"
    have halternative := fun u => Stmt.hasNumeral_ofAlternative? (u := u) ih
    obtain ⟨i, cs⟩ := t
    rw [Stmt.ofTree] at h
    split at h
    · exact hfirst h
    · obtain ⟨d, hd, htext⟩ := List.mem_flatMap.1 h
      obtain ⟨c, hc, rfl⟩ := List.mem_map.1 hd
      exact (Declarator.hasNumeral_ofTree htext).of_child (List.mem_of_mem_filter hc)
    · cases h
    · cases h
    · cases h
    · cases h
    · dsimp only at h
      split at h
      · exact (List.mem_append.1 h).elim htest hbody
      · next u hu =>
        rcases List.mem_append.1 h with h | h
        · exact (List.mem_append.1 h).elim htest hbody
        · exact halternative u hu h
    · cases h
    · rw [numerals, Stmt.ofChildren_eq] at h
      obtain ⟨_, hu, htext⟩ := Stmt.mem_numeralsAll.1 h
      obtain ⟨c, hc, rfl⟩ := List.mem_map.1 hu
      have hmem : c ∈ (SyntaxTree.node i cs).children := List.mem_of_mem_filter hc
      exact (ih c hmem c .refl htext).of_child hmem
    · cases h

theorem Script.hasNumeral_ofTree {root : SyntaxTree}
    (h : text ∈ (Script.ofTree source root).numerals) : root.HasNumeral source text := by
  rw [numerals, stmts_ofTree] at h
  obtain ⟨_, hu, htext⟩ := Stmt.mem_numeralsAll.1 h
  obtain ⟨c, hc, rfl⟩ := List.mem_map.1 hu
  exact (Stmt.hasNumeral_ofTree htext).of_child (SyntaxTree.mem_children_of_mem_content hc)

end Numerals

/-! ### Trees -/

/-- **Compilation preserves meaning**: a compiled tree without a literal for the negative zero, run
from any memory, is never stuck, reaches the final halt, and ends with the memory that the tree
itself leads to.  The setting that turns empty statements into halts must be off. -/
theorem Script.compile_preserves_meaning {s : Settings} {source : ByteArray} {root : SyntaxTree}
    {scope : Scope α} {program : Program} (hs : s.emptyHalts = false)
    (hzero : ∀ text, root.HasNumeral source text → Literal.number? text ≠ some (.zero true))
    (h : ((Script.ofTree source root).compile s scope).result = .ok program) (mem : Memory V) :
    ∃ final, root.meaning m source scope mem = some final ∧
      m.Reaches program ⟨0, mem⟩ ⟨program.code.length - 1, final⟩ ∧
      m.HaltsAt program ⟨program.code.length - 1, final⟩ ∧
      ∀ τ, m.Reaches program ⟨0, mem⟩ τ → m.step program τ ≠ .stuck := by
  obtain ⟨a, ha, rfl⟩ := Script.compile_eq_ok_iff.1 h
  have hplain : Constant.Holds Constant.Plain (Script.ofTree source root).numerals :=
    ⟨by simp [Constant.Plain], by simp [Constant.Plain], fun text ht x hx hc =>
      hzero text (Script.hasNumeral_ofTree ht) (by rw [hx, Constant.number.inj hc])⟩
  have huses : a.Uses Constant.Plain fun _ => True :=
    Script.plan_uses ha hplain ⟨fun _ _ _ => trivial, fun _ _ => trivial⟩
  obtain ⟨final, heval, hexec⟩ := (hs ▸ Script.plansAll_of_plan ha).exec m mem
  have hmeaning : root.meaning m source scope mem = some final := by
    rw [← Script.eval_ofTree]
    exact heval
  obtain ⟨hreach, hhalt⟩ := Plan.reaches_halt s.name huses hexec
  rw [Plan.length_code_program, Nat.add_sub_cancel]
  exact ⟨final, hmeaning, hreach, hhalt, fun τ hτ => Semantics.not_stuck_of_halted hreach hhalt hτ⟩

/-- A machine whose values are numbers, all constants being one. -/
def Semantics.counting : Semantics Nat where
  constant _ := 1
  add := (· + ·)
  sub := (· - ·)
  mul := (· * ·)
  div := (· / ·)
  eq x y := if x = y then 1 else 0
  falsy x := x == 0

/-- The value is computed for both names, the branch that is not taken does nothing, and the sum is
left on the stack. -/
theorem Script.compile_branching_preserves_meaning :
    let text := "let [a, b] = 1; if (a === b) a + 2; else ;"
    let root := SyntaxTree.ofSource text
    let scope : Scope Unit := .empty []
    let start : Memory Nat := ⟨[], fun _ => 0⟩
    ∃ program, ((Script.ofTree text.toUTF8 root).compile .standard scope).result = .ok program ∧
      program.code =
        [1, 0, 10, 0, 1, 0, 10, 1, 9, 0, 9, 1, 6, 8, 22, 9, 0, 1, 1, 2, 7, 22, 0] ∧
      ∃ final, root.meaning .counting text.toUTF8 scope start = some final ∧ final.stack = [2] ∧
        Semantics.counting.Reaches program ⟨0, start⟩ ⟨program.code.length - 1, final⟩ ∧
        Semantics.counting.HaltsAt program ⟨program.code.length - 1, final⟩ ∧
        ∀ τ, Semantics.counting.Reaches program ⟨0, start⟩ τ →
          Semantics.counting.step program τ ≠ .stuck := by
  intro text root scope start
  have hvalues : (((Script.ofTree text.toUTF8 root).plan .standard scope).map
        fun a => (a.program Settings.standard.name).code).toOption =
          some [1, 0, 10, 0, 1, 0, 10, 1, 9, 0, 9, 1, 6, 8, 22, 9, 0, 1, 1, 2, 7, 22, 0] ∧
      (root.meaning .counting text.toUTF8 scope start).map Memory.stack = some [2] ∧
      (root.preorder.filter (·.kind == "number")).map (fun c => (c.text text.toUTF8).toOption) =
        [some "1", some "2"] := by
    decide +kernel
  clear_value root
  obtain ⟨hcode, hstack, hnumerals⟩ := hvalues
  have hzero : ∀ word, root.HasNumeral text.toUTF8 word →
      Literal.number? word ≠ some (.zero true) := by
    rintro word ⟨c, hc, hkind, htext⟩
    have hmem : some word ∈ [some "1", some "2"] := by
      rw [← hnumerals]
      refine List.mem_map.2 ⟨c, List.mem_filter.2 ⟨SyntaxTree.mem_preorder.2 hc, ?_⟩, ?_⟩
      · simp [hkind]
      · rw [htext]
        rfl
    have hall : ∀ word ∈ ["1", "2"], Literal.number? word ≠ some (.zero true) := by decide +kernel
    exact hall word (by simpa using hmem)
  cases hplan : (Script.ofTree text.toUTF8 root).plan .standard scope with
  | error f =>
    rw [hplan] at hcode
    cases hcode
  | ok a =>
    rw [hplan] at hcode
    have hresult := Script.compile_eq_ok_iff.2 ⟨a, hplan, rfl⟩
    obtain ⟨final, hmeaning, hrun⟩ :=
      Script.compile_preserves_meaning .counting rfl hzero hresult start
    rw [hmeaning] at hstack
    exact ⟨_, hresult, Option.some.inj hcode, final, hmeaning, Option.some.inj hstack, hrun⟩

end StackScript
