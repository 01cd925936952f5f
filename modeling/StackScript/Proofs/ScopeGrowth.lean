import Mathlib.Data.List.Basic
import StackScript.Scope

/-!
# How scopes grow

A pass changes a scope only by defining names, so that every scope it meets is
`scope.defineAll names` for the scope it started with.  Returning to the checkpoint of the start
restores what names mean (`Scope.sameNames_rollback`), and where there are as many initial values as
names (`Scope.Level`) it gives the whole scope back (`Scope.rollback_defineAll`).

A scope is `Scope.Bounded` when every name means a slot that exists.
-/

namespace StackScript

namespace Scope

variable {α : Type}

@[simp] theorem defineAll_nil (s : Scope α) : s.defineAll [] = s := rfl

@[simp] theorem defineAll_cons (s : Scope α) (name : String) (names : List String) :
    s.defineAll (name :: names) = (s.define name none).2.defineAll names := rfl

@[simp] theorem defineAll_append (s : Scope α) (names more : List String) :
    s.defineAll (names ++ more) = (s.defineAll names).defineAll more := by
  simp [defineAll]

@[simp] theorem slotCount_define (s : Scope α) (name : String) (initial : Option α) :
    (s.define name initial).2.slotCount = s.slotCount + 1 := by
  simp [define, slotCount]

@[simp] theorem slotCount_defineAll (s : Scope α) (names : List String) :
    (s.defineAll names).slotCount = s.slotCount + names.length := by
  induction names generalizing s with
  | nil => rfl
  | cons name names ih => simp [ih]; omega

@[simp] theorem names_define (s : Scope α) (name : String) (initial : Option α) :
    (s.define name initial).2.names = s.names ++ [name] := by
  simp [names, define]

@[simp] theorem names_defineAll (s : Scope α) (names : List String) :
    (s.defineAll names).names = s.names ++ names := by
  induction names generalizing s with
  | nil => simp
  | cons name names ih => simp [ih]

theorem initials_defineAll (s : Scope α) (names : List String) :
    (s.defineAll names).initials.toList = s.initials.toList ++ names.map fun _ => none := by
  induction names generalizing s with
  | nil => simp
  | cons name names ih => simp [ih, define]

theorem globals_defineAll (s : Scope α) (names : List String) :
    (s.defineAll names).globals = s.globals := by
  induction names generalizing s with
  | nil => rfl
  | cons name names ih => simp [ih, define]

/-! ### Returning to a checkpoint -/

/-- Two scopes differ at most in initial values. -/
structure SameNames (s t : Scope α) : Prop where
  globals : s.globals = t.globals
  slotNames : s.slotNames = t.slotNames
  bindings : s.bindings = t.bindings

theorem SameNames.slotCount_eq {s t : Scope α} (h : s.SameNames t) : s.slotCount = t.slotCount :=
  congrArg Array.size h.slotNames

theorem SameNames.slot?_eq {s t : Scope α} (h : s.SameNames t) (name : String) :
    s.slot? name = t.slot? name := by
  rw [slot?, slot?, h.bindings]

/-- There are as many initial values as names. -/
def Level (s : Scope α) : Prop := s.initials.size = s.slotCount

theorem level_empty (globals : List String) : (empty globals : Scope α).Level := rfl

theorem Level.define {s : Scope α} (h : s.Level) (name : String) (initial : Option α) :
    (s.define name initial).2.Level := by
  have hsize : (s.define name initial).2.initials.size = s.initials.size + 1 := by simp [Scope.define]
  rw [Level, hsize, slotCount_define, h]

theorem Level.defineAll {s : Scope α} (h : s.Level) (names : List String) :
    (s.defineAll names).Level := by
  induction names generalizing s with
  | nil => exact h
  | cons name names ih => exact ih (h.define name none)

theorem slotNames_rollback (s : Scope α) (names : List String) :
    ((s.defineAll names).rollback s.checkpoint).slotNames = s.slotNames := by
  have hnames : (s.defineAll names).slotNames.toList = s.slotNames.toList ++ names :=
    s.names_defineAll names
  apply Array.toList_inj.1
  simp [rollback, checkpoint, hnames, slotCount]

/-- **Returning to a checkpoint** gives names the meaning that they had, however many were defined
since. -/
theorem sameNames_rollback (s : Scope α) (names : List String) :
    ((s.defineAll names).rollback s.checkpoint).SameNames s :=
  ⟨s.globals_defineAll names, s.slotNames_rollback names, rfl⟩

/-- Where there are as many initial values as names, both tables are cut back to what they were. -/
theorem rollback_defineAll {s : Scope α} (hs : s.Level) (names : List String) :
    (s.defineAll names).rollback s.checkpoint = s := by
  have hinitials : (s.defineAll names).initials.take s.slotCount = s.initials := by
    apply Array.toList_inj.1
    rw [← hs]
    simp [initials_defineAll]
  simp only [rollback, checkpoint, hinitials, globals_defineAll]
  congr 1
  exact s.slotNames_rollback names

/-! ### Slots that exist -/

/-- Every name means a slot that exists. -/
def Bounded (s : Scope α) : Prop := ∀ name slot, s.slot? name = some slot → slot < s.slotCount

theorem bounded_empty (globals : List String) : (empty globals : Scope α).Bounded := by
  intro name slot h
  simp [slot?, empty] at h

theorem Bounded.of_sameNames {s t : Scope α} (ht : t.Bounded) (h : s.SameNames t) : s.Bounded := by
  intro name slot hslot
  rw [h.slot?_eq] at hslot
  rw [h.slotCount_eq]
  exact ht name slot hslot

theorem slot?_define (s : Scope α) (name other : String) (initial : Option α) :
    (s.define name initial).2.slot? other =
      if name = other then some s.slotCount else s.slot? other := by
  simp [define, slot?, Std.TreeMap.getElem?_insert]

theorem Bounded.define {s : Scope α} (h : s.Bounded) (name : String) (initial : Option α) :
    (s.define name initial).2.Bounded := by
  intro other slot hs
  rw [slot?_define] at hs
  rw [slotCount_define]
  split at hs
  · obtain rfl : s.slotCount = slot := by simpa using hs
    omega
  · have := h other slot hs
    omega

theorem Bounded.defineAll {s : Scope α} (h : s.Bounded) (names : List String) :
    (s.defineAll names).Bounded := by
  induction names generalizing s with
  | nil => exact h
  | cons name names ih => exact ih (h.define name none)

end Scope

end StackScript
