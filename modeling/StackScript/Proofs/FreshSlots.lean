import StackScript.Grammar
import StackScript.Proofs.PassPlan
import StackScript.Proofs.ScopeHistory
import StackScript.Proofs.Supported
import StackScript.Proofs.TreeBindings
import StackScript.Source

/-!
# Fresh slots

Every name that a script binds takes a slot of its own, in the order in which the names stand in the
script, and code gives a value to each of these slots once or never.

The names and their order are those of `SyntaxTree.bindings`, which are read off the tree without
compiling it.

* `Binding.assigned` : the slots of the names that are given a value;
* `Stmt.Plans.stores_eq` : these are the slots that the code of a statement writes to, one after the
  other;
* `Script.freshSlots_of_compiled` : hence what every compiled script does to its scope.
-/

namespace StackScript

variable {α : Type}

/-! ### Slots that are given a value -/

namespace Binding

/-- The slots of the bindings that have a value, where the first binding takes the given slot. -/
def assigned (start : Nat) (bs : List Binding) : List Nat :=
  ((bs.zipIdx start).filter fun b => b.1.hasValue).map Prod.snd

theorem assigned_append (start : Nat) (bs cs : List Binding) :
    assigned start (bs ++ cs) = assigned start bs ++ assigned (start + bs.length) cs := by
  simp [assigned, List.zipIdx_append]

theorem mem_assigned_iff {start k : Nat} {bs : List Binding} :
    k ∈ assigned start bs ↔ ∃ i b, bs[i]? = some b ∧ b.hasValue = true ∧ k = start + i := by
  simp only [assigned, List.mem_map, List.mem_filter, Prod.exists, exists_eq_right,
    List.mk_mem_zipIdx_iff_le_and_getElem?_sub]
  constructor
  · rintro ⟨b, ⟨hle, hb⟩, hvalue⟩
    exact ⟨k - start, b, hb, hvalue, by omega⟩
  · rintro ⟨i, b, hb, hvalue, rfl⟩
    exact ⟨b, ⟨by omega, by simpa using hb⟩, hvalue⟩

/-- Slots are taken in order, so the assigned ones are part of a range. -/
theorem pairwise_assigned (start : Nat) (bs : List Binding) :
    (assigned start bs).Pairwise (· < ·) := by
  have hsub : (assigned start bs).Sublist (List.range' start bs.length) := by
    rw [← List.zipIdx_map_snd start bs]
    exact List.filter_sublist.map Prod.snd
  exact List.Pairwise.sublist hsub List.pairwise_lt_range'

end Binding

/-- The slot that an instruction gives a value to. -/
def Instruction.stored? : Instruction → Option Int
  | setContext slot => some slot
  | halt | add | sub | mul | div | eq => none
  | const _ | jump _ | jumpIfFalse _ | loadContext _ => none

/-- The slots that the code of a program gives a value to, in the order of the code. -/
def Program.storedSlots (p : Program) : List Int :=
  p.decoded.instructions.filterMap fun l => l.instruction.stored?

namespace Plan

/-- The slots that a plan gives a value to. -/
def stores : Plan → List Nat
  | store slot => [slot]
  | andThen a b | branch a b => a.stores ++ b.stores
  | skip | halt | push _ | load _ | operate _ => []

theorem filterMap_stored?_code (a : Plan) (offset : Nat) (cs : List Constant) :
    (a.code offset cs).filterMap Instruction.stored? =
      a.stores.map fun slot : Nat => (slot : Int) := by
  induction a generalizing offset cs with
  | skip | halt | push _ | load _ | store _ => rfl
  | operate op => cases op <;> rfl
  | andThen a b iha ihb => rw [code, List.filterMap_append, iha, ihb, stores, List.map_append]
  | branch a b iha ihb =>
    rw [code_branch]
    simp only [List.filterMap_append, iha, ihb, stores, List.map_append]
    rfl

theorem storedSlots_program (name : String) (a : Plan) :
    (a.program name).storedSlots = a.stores.map fun slot : Nat => (slot : Int) := by
  rw [Program.storedSlots, decoded_program, Code.filterMap_locate, List.filterMap_append,
    filterMap_stored?_code]
  simp [Instruction.stored?]

end Plan

section Stores

variable {scope : Scope α} {a : Plan}

theorem Expr.Plans.stores_eq_nil {e : Expr} (h : e.Plans scope a) : a.stores = [] := by
  induction h with
  | number | boolean | string | identifier => rfl
  | parenthesized _ ih => exact ih
  | binary _ _ _ ihl ihr => simp [Plan.stores, ihl, ihr]

theorem Plan.Binds.stores_eq {value : Option Expr} {names : List String}
    (h : a.Binds value scope names) :
    a.stores = Binding.assigned scope.slotCount (names.map (⟨·, value.isSome⟩)) := by
  induction h with
  | nothing | declare => rfl
  | assign he => simp [stores, he.stores_eq_nil, Binding.assigned]
  | andThen _ _ iha ihb => simp [stores, iha, ihb, Binding.assigned_append]

theorem Declarator.PlansAll.stores_eq {ds : List Declarator} (h : Declarator.PlansAll scope ds a) :
    a.stores = Binding.assigned scope.slotCount (ds.flatMap Declarator.bindings) := by
  induction h with
  | nil => rfl
  | cons hd _ ih =>
    rw [Plan.stores, hd.stores_eq, ih, List.flatMap_cons, Binding.assigned_append]
    simp [Declarator.bindings]

variable {halts : Bool}

mutual

theorem Stmt.Plans.stores_eq {scope : Scope α} {t : Stmt} {a : Plan}
    (h : Stmt.Plans halts scope t a) : a.stores = Binding.assigned scope.slotCount t.bindings := by
  cases h with
  | expression h => exact h.stores_eq_nil
  | lexical h => exact h.stores_eq
  | ifThen ht hb => simp [Plan.stores, ht.stores_eq_nil, hb.stores_eq, Stmt.bindings]
  | ifElse ht hb hc =>
    -- The alternative is compiled with the names of the body in place.
    simp [Plan.stores, ht.stores_eq_nil, hb.stores_eq, hc.stores_eq, Stmt.bindings,
      Binding.assigned_append, Stmt.length_bindings]
  | empty => split <;> rfl
  | block h => exact h.stores_eq

theorem Stmt.PlansAll.stores_eq {scope : Scope α} {ts : List Stmt} {a : Plan}
    (h : Stmt.PlansAll halts scope ts a) :
    a.stores = Binding.assigned scope.slotCount (Stmt.bindingsAll ts) := by
  cases h with
  | nil => rfl
  | cons ht hts =>
    simp [Plan.stores, ht.stores_eq, hts.stores_eq, Stmt.bindingsAll, Binding.assigned_append,
      Stmt.length_bindings]

end

end Stores

/-! ### Compiled scripts -/

namespace Script

theorem bindingsAll_ofTree (source : ByteArray) (root : SyntaxTree) :
    Stmt.bindingsAll (Script.ofTree source root).stmts = root.bindings source := by
  rw [stmts_ofTree, Stmt.bindingsAll_eq, List.flatMap_map, SyntaxTree.bindings, List.flatMap_assoc]
  exact List.flatMap_congr fun t _ => Stmt.bindings_ofTree source t

/-- **Every bound name takes a fresh slot, which is written to once or never.**  Behind a compiled
tree the scope has the names of the tree's declarations behind those it had, in their order, with
one slot for each of them also where a name is bound again.  The slots that the code gives a value
to go up from each to the next, and they are those of the names whose declaration gives a value. -/
theorem freshSlots_of_compiled {source : ByteArray} {root : SyntaxTree} {s : Settings}
    {scope : Scope α} {program : Program}
    (h : ((Script.ofTree source root).compile s scope).result = .ok program) :
    ((Script.ofTree source root).compile s scope).scope.names =
      scope.names ++ (root.bindings source).map Binding.name ∧
    program.storedSlots.Pairwise (· < ·) ∧
    ∀ k : Int, k ∈ program.storedSlots ↔ ∃ (i : Nat) (b : Binding),
      (root.bindings source)[i]? = some b ∧ b.hasValue = true ∧
        k = ((scope.slotCount + i : Nat) : Int) := by
  obtain ⟨a, ha, rfl⟩ := compile_eq_ok_iff.1 h
  have hbindings := bindingsAll_ofTree source root
  have hstores : (a.program s.name).storedSlots =
      (Binding.assigned scope.slotCount (root.bindings source)).map
        fun slot : Nat => (slot : Int) := by
    rw [Plan.storedSlots_program, (Script.plansAll_of_plan ha).stores_eq, hbindings]
  refine ⟨?_, ?_, fun k => ?_⟩
  · rw [(compile_of_plan ha).2, Scope.names_defineAll, names, ← Stmt.map_name_bindingsAll,
      hbindings]
  · rw [hstores, List.pairwise_map]
    exact (Binding.pairwise_assigned _ _).imp fun hlt => Int.ofNat_lt.2 hlt
  · rw [hstores, List.mem_map]
    constructor
    · rintro ⟨slot, hslot, rfl⟩
      obtain ⟨i, b, hb, hvalue, rfl⟩ := Binding.mem_assigned_iff.1 hslot
      exact ⟨i, b, hb, hvalue, rfl⟩
    · rintro ⟨i, b, hb, hvalue, rfl⟩
      exact ⟨scope.slotCount + i, Binding.mem_assigned_iff.2 ⟨i, b, hb, hvalue, rfl⟩, rfl⟩

/-- A source that binds two of its names again, in the two branches of a condition. -/
def rebinding : String := "let [a, \x7bb: c\x7d] = 1; if (a) let a; else let b = 2"

/-- Four names take four slots; the pair binds its key and not what stands behind it.  The third
name has no value. -/
theorem freshSlots_rebinding :
    let source := rebinding.toUTF8
    let root := SyntaxTree.ofSource rebinding
    let scope : Scope Unit := .empty []
    let outcome := (Script.ofTree source root).compile .standard scope
    ∃ program, outcome.result = .ok program ∧
      outcome.scope.names = ["a", "b", "a", "b"] ∧ program.storedSlots = [0, 1, 3] ∧
      program.storedSlots.Pairwise (· < ·) ∧
      ∀ k : Int, k ∈ program.storedSlots ↔ ∃ (i : Nat) (b : Binding),
        (root.bindings source)[i]? = some b ∧ b.hasValue = true ∧
          k = ((scope.slotCount + i : Nat) : Int) := by
  intro source root scope outcome
  have hvalues : (root.bindings source).map Binding.name = ["a", "b", "a", "b"] ∧
      (((Script.ofTree source root).plan .standard scope).map Plan.stores).toOption =
        some [0, 1, 3] := by decide +kernel
  clear_value root
  obtain ⟨hbindings, hstores⟩ := hvalues
  cases hplan : (Script.ofTree source root).plan .standard scope with
  | error f =>
    rw [hplan] at hstores
    cases hstores
  | ok a =>
    rw [hplan] at hstores
    have hresult : outcome.result = .ok (a.program Settings.standard.name) :=
      compile_eq_ok_iff.2 ⟨a, hplan, rfl⟩
    obtain ⟨hnames, hsorted, hslots⟩ := freshSlots_of_compiled hresult
    refine ⟨_, hresult, hnames.trans (by rw [hbindings]; rfl), ?_, hsorted, hslots⟩
    rw [Plan.storedSlots_program, Option.some.inj hstores]
    rfl

end Script

end StackScript
