import StackScript.Proofs.ScriptPlan

/-!
# What a plan mentions

A plan pushes constants and refers to slots.  The constants are the values of literals of the
script; the slots are those that names of the scope mean, and the fresh ones of the names that the
script binds.  `Script.plan_uses` says so for any property of constants and any property of slots:
both the bounds on the operands of a program and the identity of its constants are read off it.
-/

namespace StackScript

variable {α : Type}

/-! ### Number literals -/

/-- The texts of the number literals of an expression. -/
def Expr.numerals : Expr → List String
  | .number _ text => text.toOption.toList
  | .parenthesized _ inner => inner.numerals
  | .binary _ left right _ => left.numerals ++ right.numerals
  | .boolean .. | .string .. | .identifier .. | .unsupported .. | .broken _ => []

/-- The texts of the number literals of a declarator. -/
def Declarator.numerals (d : Declarator) : List String := d.value.toList.flatMap Expr.numerals

mutual

/-- The texts of the number literals of a statement. -/
def Stmt.numerals : Stmt → List String
  | .expression _ value => value.numerals
  | .lexical _ _ declarators => declarators.flatMap Declarator.numerals
  | .ifThen _ test body => test.numerals ++ body.numerals
  | .ifElse _ test body alternative => test.numerals ++ body.numerals ++ alternative.numerals
  | .block _ body => Stmt.numeralsAll body
  | .foreign .. | .empty _ | .unsupported .. | .broken _ => []

/-- The texts of the number literals of several statements. -/
def Stmt.numeralsAll : List Stmt → List String
  | [] => []
  | t :: ts => t.numerals ++ Stmt.numeralsAll ts

end

/-- The texts of the number literals of a script. -/
def Script.numerals (script : Script) : List String := Stmt.numeralsAll script.stmts

/-! ### Slots in reach -/

/-- The slots that code can mention behind a scope in which names are going to be defined. -/
structure Scope.Admits (scope : Scope α) (names : List String) (S : Nat → Prop) : Prop where
  bound : ∀ name slot, scope.slot? name = some slot → S slot
  fresh : ∀ k < names.length, S (scope.slotCount + k)

namespace Scope.Admits

variable {scope : Scope α} {name : String} {names more : List String} {S : Nat → Prop}

theorem left (h : scope.Admits (names ++ more) S) : scope.Admits names S :=
  ⟨h.bound, fun k hk => h.fresh k (by simp; omega)⟩

theorem slotCount (h : scope.Admits (name :: names) S) : S scope.slotCount :=
  h.fresh 0 (by simp)

theorem define (h : scope.Admits (name :: names) S) :
    (scope.define name none).2.Admits names S where
  bound other slot hs := by
    rw [slot?_define] at hs
    split at hs
    · obtain rfl : scope.slotCount = slot := by simpa using hs
      exact h.slotCount
    · exact h.bound other slot hs
  fresh k hk := by
    have := h.fresh (k + 1) (by simp; omega)
    rwa [slotCount_define, show scope.slotCount + 1 + k = scope.slotCount + (k + 1) by omega]

theorem right (h : scope.Admits (names ++ more) S) : (scope.defineAll names).Admits more S := by
  induction names generalizing scope with
  | nil => exact h
  | cons name names ih => exact ih h.define

end Scope.Admits

/-- Where every name means a slot that exists, code mentions only slots that exist in the end. -/
theorem Scope.Bounded.admits {scope : Scope α} (h : scope.Bounded) (names : List String) :
    scope.Admits names (· < scope.slotCount + names.length) where
  bound name slot hs := by
    have := h name slot hs
    omega
  fresh k hk := by omega

/-! ### Constants and slots of a plan -/

/-- All constants that a plan pushes have one property, and all slots it refers to another. -/
def Plan.Uses (C : Constant → Prop) (S : Nat → Prop) : Plan → Prop
  | .push c => C c
  | .load slot | .store slot => S slot
  | .andThen a b | .branch a b => a.Uses C S ∧ b.Uses C S
  | .skip | .halt | .operate _ => True

variable {C : Constant → Prop} {S : Nat → Prop}

theorem Plan.Uses.pool {a : Plan} (h : a.Uses C S) {cs : List Constant} (hcs : ∀ c ∈ cs, C c) :
    ∀ c ∈ a.pool cs, C c := by
  induction a generalizing cs with
  | push c =>
    intro d hd
    rcases Constant.mem_insertInto hd with hd | rfl
    · exact hcs d hd
    · exact h
  | andThen a b iha ihb | branch a b iha ihb => exact ihb h.2 (iha h.1 hcs)
  | skip | halt | load _ | store _ | operate _ => exact hcs

/-- A property of constants that no literal of the script violates: booleans and strings have it,
and so have the numbers that the given texts denote. -/
structure Constant.Holds (C : Constant → Prop) (numerals : List String) : Prop where
  boolean : ∀ b, C (.boolean b)
  string : ∀ t, C (.string t)
  number : ∀ text ∈ numerals, ∀ x, Literal.number? text = some x → C (.number x)

theorem Constant.Holds.mono {numerals more : List String} (h : Constant.Holds C more)
    (hsub : numerals ⊆ more) : Constant.Holds C numerals :=
  ⟨h.boolean, h.string, fun text ht => h.number text (hsub ht)⟩

theorem Expr.Plans.uses {scope : Scope α} {e : Expr} {a : Plan} (h : e.Plans scope a)
    (hC : Constant.Holds C e.numerals)
    (hS : ∀ name slot, scope.slot? name = some slot → S slot) : a.Uses C S := by
  induction h with
  | @number pos text x _ hx => exact hC.number text (by simp [numerals, Except.toOption]) x hx
  | boolean pos value => exact hC.boolean value
  | string ht => exact hC.string _
  | identifier hslot => exact hS _ _ hslot
  | parenthesized _ ih => exact ih hC
  | binary _ _ _ ihl ihr =>
    exact ⟨ihl (hC.mono (by simp [numerals])), ihr (hC.mono (by simp [numerals])), trivial⟩

theorem Plan.Binds.uses {value : Option Expr} {scope : Scope α} {names : List String} {a : Plan}
    (h : a.Binds value scope names)
    (hC : Constant.Holds C (value.toList.flatMap Expr.numerals)) (hS : scope.Admits names S) :
    a.Uses C S := by
  induction h with
  | nothing value scope => trivial
  | declare scope name => trivial
  | assign he =>
    -- The value is computed with the new name in scope, so it may refer to the fresh slot.
    exact ⟨he.uses (hC.mono (by simp)) hS.define.bound, hS.slotCount⟩
  | andThen ha hb iha ihb => exact ⟨iha hC hS.left, ihb hC hS.right⟩

theorem Declarator.PlansAll.uses {ds : List Declarator} {scope : Scope α} {a : Plan}
    (h : Declarator.PlansAll scope ds a)
    (hC : Constant.Holds C (ds.flatMap Declarator.numerals))
    (hS : scope.Admits (ds.flatMap fun d => d.target.names) S) : a.Uses C S := by
  induction h with
  | nil scope => trivial
  | cons hd _ ih =>
    rw [List.flatMap_cons] at hC hS
    exact ⟨hd.uses (hC.mono (by simp [numerals])) hS.left, ih (hC.mono (by simp)) hS.right⟩

variable {halts : Bool}

mutual

theorem Stmt.Plans.uses {scope : Scope α} {t : Stmt} {a : Plan} (h : Stmt.Plans halts scope t a)
    (hC : Constant.Holds C t.numerals) (hS : scope.Admits t.names S) : a.Uses C S := by
  cases h with
  | expression h => exact h.uses hC hS.bound
  | lexical h => exact h.uses hC hS
  | ifThen ht hb =>
    exact ⟨ht.uses (hC.mono (by simp [numerals])) hS.bound,
      hb.uses (hC.mono (by simp [numerals])) hS, trivial⟩
  | ifElse ht hb hc =>
    rw [names] at hS
    exact ⟨ht.uses (hC.mono (by simp [numerals])) hS.bound,
      hb.uses (hC.mono (by simp [numerals])) hS.left,
      hc.uses (hC.mono (by simp [numerals])) hS.right⟩
  | empty => split <;> trivial
  | block h => exact h.uses hC hS

theorem Stmt.PlansAll.uses {scope : Scope α} {ts : List Stmt} {a : Plan}
    (h : Stmt.PlansAll halts scope ts a) (hC : Constant.Holds C (Stmt.numeralsAll ts))
    (hS : scope.Admits (Stmt.namesAll ts) S) : a.Uses C S := by
  cases h with
  | nil => trivial
  | cons ht hts =>
    rw [numeralsAll] at hC
    rw [namesAll] at hS
    exact ⟨ht.uses (hC.mono (by simp)) hS.left, hts.uses (hC.mono (by simp)) hS.right⟩

end

/-- **What the plan of a script mentions**: values of literals, slots of names in scope, and slots
of names that the script binds. -/
theorem Script.plan_uses {s : Settings} {script : Script} {scope : Scope α} {a : Plan}
    (h : script.plan s scope = .ok a) (hC : Constant.Holds C script.numerals)
    (hS : scope.Admits script.names S) : a.Uses C S :=
  (Script.plansAll_of_plan h).uses hC hS

end StackScript
