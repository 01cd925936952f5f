import Mathlib.Order.Bounds.Basic
import StackScript.Proofs.Recovery

/-!
# The history of a scope

A scope keeps three tables: the names by slot, the initial values by slot, and the slot that each
name means.  Returning to a checkpoint cuts each of the first two and puts back the third.  What keeps
them in step is that whatever happens to a scope, in the end it has only grown by definitions
(`Scope.Grows`), also where a pass was cut short and nobody undid it.

* `Scope.Coherent` : there are as many values as names, and every name means the last slot of that
  name;
* `Act` : what can happen to a scope from outside, with any outcome;
* `Scope.grows_enact` : an act lets the scope grow, and that is all it does;
* `Scope.coherent_throughout` : hence the tables agree throughout every history, and no slot is
  ever lost or renamed.
-/

namespace StackScript

variable {α : Type}

namespace Scope

/-! ### Coherence -/

/-- There are as many initial values as names.  Every name means the last slot of that name; a name
without a slot means nothing. -/
structure Coherent (s : Scope α) : Prop where
  level : s.Level
  latest : ∀ name slot, s.slot? name = some slot → IsGreatest {k | s.names[k]? = some name} slot
  absent : ∀ name, s.slot? name = none → name ∉ s.names

@[simp] theorem length_names (s : Scope α) : s.names.length = s.slotCount := by
  simp [names, slotCount]

theorem name?_natCast (s : Scope α) (k : Nat) : s.name? k = s.names[k]? := by
  simp [name?, names]

theorem name?_eq_some_iff {s : Scope α} {k : Int} {name : String} :
    s.name? k = some name ↔ ∃ i : Nat, k = i ∧ s.names[i]? = some name := by
  constructor
  · intro h
    by_cases hk : 0 ≤ k
    · obtain ⟨i, rfl⟩ := Int.eq_ofNat_of_zero_le hk
      exact ⟨i, rfl, by rw [← name?_natCast, h]⟩
    · simp [name?, hk] at h
  · rintro ⟨i, rfl, h⟩
    rw [name?_natCast, h]

theorem name?_of_prefix {s t : Scope α} (h : s.names <+: t.names) {k : Int} {name : String}
    (hname : s.name? k = some name) : t.name? k = some name := by
  obtain ⟨i, rfl, hi⟩ := name?_eq_some_iff.1 hname
  obtain ⟨hlt, rfl⟩ := List.getElem?_eq_some_iff.1 hi
  rw [name?_natCast, List.prefix_iff_getElem?.1 h i hlt]

theorem coherent_empty (globals : List String) : (empty globals : Scope α).Coherent where
  level := level_empty globals
  latest name slot h := by simp [slot?, empty] at h
  absent name _ := by simp [names, empty]

namespace Coherent

variable {s : Scope α}

theorem define (h : s.Coherent) (name : String) (initial : Option α) :
    (s.define name initial).2.Coherent where
  level := h.level.define name initial
  latest other slot hslot := by
    rw [slot?_define] at hslot
    rw [names_define]
    by_cases hname : name = other
    · -- The new slot is the last one of all.
      subst hname
      obtain rfl : s.slotCount = slot := by simpa using hslot
      refine ⟨by simp [← length_names], fun k hk => ?_⟩
      have hlt := (List.getElem?_eq_some_iff.1 hk).1
      rw [List.length_append, length_names, List.length_singleton] at hlt
      omega
    · rw [if_neg hname] at hslot
      obtain ⟨hmem, hmax⟩ := h.latest other slot hslot
      refine ⟨?_, fun k hk => hmax ?_⟩
      · have hlt := (List.getElem?_eq_some_iff.1 hmem).1
        simpa [List.getElem?_append_left hlt] using hmem
      · -- The new slot has another name, so `k` is one of those before it.
        have hk : (s.names ++ [name])[k]? = some other := hk
        rw [List.getElem?_append] at hk
        split at hk
        · exact hk
        · simp [List.getElem?_singleton, hname] at hk
  absent other hslot := by
    rw [slot?_define] at hslot
    rw [names_define]
    by_cases hname : name = other
    · simp [hname] at hslot
    · rw [if_neg hname] at hslot
      simpa [Ne.symm hname] using h.absent other hslot

theorem name_of_slot? (h : s.Coherent) {name : String} {slot : Nat}
    (hslot : s.slot? name = some slot) : s.names[slot]? = some name :=
  (h.latest name slot hslot).1

theorem length_initials (h : s.Coherent) : s.initials.size = s.names.length := by
  rw [length_names]
  exact h.level

theorem isSome_initial?_iff (h : s.Coherent) (k : Nat) :
    (s.initial? k).isSome ↔ k < s.names.length := by
  rw [← h.length_initials]
  by_cases hk : k < s.initials.size
  · simp [initial?, SignedIndex.resolve?, hk]
  · simp [initial?, SignedIndex.resolve?, hk]

theorem bounded (h : s.Coherent) : s.Bounded := by
  intro name slot hslot
  rw [← length_names]
  exact (List.getElem?_eq_some_iff.1 (h.name_of_slot? hslot)).1

/-- The slot that a name means is found in the table of names alone. -/
theorem slot?_eq_some_iff (h : s.Coherent) {name : String} {slot : Nat} :
    s.slot? name = some slot ↔ IsGreatest {k : Int | s.name? k = some name} slot := by
  constructor
  · intro hslot
    obtain ⟨hmem, hmax⟩ := h.latest name slot hslot
    refine ⟨name?_eq_some_iff.2 ⟨slot, rfl, hmem⟩, fun k hk => ?_⟩
    obtain ⟨i, rfl, hi⟩ := name?_eq_some_iff.1 hk
    exact Int.ofNat_le.2 (hmax hi)
  · rintro ⟨hmem, hmax⟩
    have hname : s.names[slot]? = some name := by rw [← name?_natCast, hmem]
    cases hslot : s.slot? name with
    | none => exact absurd (List.mem_of_getElem? hname) (h.absent name hslot)
    | some other =>
      -- Both slots are the last one of that name.
      obtain ⟨hother, hlast⟩ := h.latest name other hslot
      have hle : (other : Int) ≤ slot := hmax (name?_eq_some_iff.2 ⟨other, rfl, hother⟩)
      have hge : slot ≤ other := hlast hname
      rw [Nat.le_antisymm (Int.ofNat_le.1 hle) hge]

theorem slot?_eq_none_iff (h : s.Coherent) {name : String} :
    s.slot? name = none ↔ ∀ k, s.name? k ≠ some name := by
  constructor
  · intro hslot k hk
    obtain ⟨i, -, hi⟩ := name?_eq_some_iff.1 hk
    exact h.absent name hslot (List.mem_of_getElem? hi)
  · intro hnone
    cases hslot : s.slot? name with
    | none => rfl
    | some slot =>
      exact absurd (name?_eq_some_iff.2 ⟨slot, rfl, h.name_of_slot? hslot⟩) (hnone slot)

end Coherent

/-! ### Growth -/

/-- A scope comes of another one by definitions alone. -/
inductive Grows (s : Scope α) : Scope α → Prop
  | refl : Grows s s
  | define {t : Scope α} (h : Grows s t) (name : String) (initial : Option α) :
      Grows s (t.define name initial).2

namespace Grows

variable {s t u : Scope α}

theorem trans (h : s.Grows t) (h' : t.Grows u) : s.Grows u := by
  induction h' with
  | refl => exact h
  | define _ name initial ih => exact ih.define name initial

theorem coherent (h : s.Grows t) (hs : s.Coherent) : t.Coherent := by
  induction h with
  | refl => exact hs
  | define _ name initial ih => exact ih.define name initial

theorem level (h : s.Grows t) (hs : s.Level) : t.Level := by
  induction h with
  | refl => exact hs
  | define _ name initial ih => exact ih.define name initial

/-- Slots are neither lost nor renamed. -/
theorem prefix_names (h : s.Grows t) : s.names <+: t.names := by
  induction h with
  | refl => exact List.prefix_refl _
  | define _ name initial ih =>
    rw [names_define]
    exact ih.trans (List.prefix_append _ _)

end Grows

theorem grows_defineAll (s : Scope α) (names : List String) : s.Grows (s.defineAll names) := by
  induction names generalizing s with
  | nil => exact .refl
  | cons name names ih => exact (Grows.refl.define name none).trans (ih _)

theorem Coherent.defineAll {s : Scope α} (h : s.Coherent) (names : List String) :
    (s.defineAll names).Coherent :=
  (s.grows_defineAll names).coherent h

end Scope

/-! ### Histories -/

theorem Script.grows_compile {scope : Scope α} (hscope : scope.Level) (s : Settings)
    (script : Script) : scope.Grows (script.compile s scope).scope := by
  cases hplan : script.plan s scope with
  | ok a =>
    rw [(compile_of_plan hplan).2]
    exact scope.grows_defineAll _
  | error f =>
    cases f with
    | refused e =>
      rw [(compile_of_refused hplan).2 hscope]
      exact .refl
    | broken why =>
      -- Nobody undoes the definitions made so far, and they have been made one by one.
      obtain ⟨-, names, hnames⟩ := compile_of_broken hplan
      rw [hnames]
      exact scope.grows_defineAll names

theorem Script.grows_compileEach {scope : Scope α} (hscope : scope.Level) (s : Settings)
    (script : Script) : scope.Grows (script.compileEach s scope).scope := by
  rcases compileEach_cases hscope s script with ⟨-, _, -, -, hgrown⟩ | ⟨-, _, names, -, hgrown⟩
  · rw [hgrown]
    exact scope.grows_defineAll _
  · rw [hgrown]
    exact scope.grows_defineAll names

/-- What can happen to a scope.  A source text or a tree is compiled as the script that it is read
as, and a refusal does the same to the scope whether it is raised or returned.  Any part of a script
may be a broken one, so compilation may break off anywhere. -/
inductive Act (α : Type) where
  | define (name : String) (initial : Option α)
  | compile (script : Script) (settings : Settings)
  /-- Compile with refused statements left out. -/
  | compileEach (script : Script) (settings : Settings)

namespace Scope

/-- The scope that an act leaves, whatever its outcome. -/
def enact (scope : Scope α) : Act α → Scope α
  | .define name initial => (scope.define name initial).2
  | .compile script s => (script.compile s scope).scope
  | .compileEach script s => (script.compileEach s scope).scope

/-- The scope that several acts leave, one after the other. -/
def after (scope : Scope α) (acts : List (Act α)) : Scope α := acts.foldl enact scope

theorem after_cons (scope : Scope α) (act : Act α) (acts : List (Act α)) :
    scope.after (act :: acts) = (scope.enact act).after acts := rfl

theorem after_append (scope : Scope α) (acts more : List (Act α)) :
    scope.after (acts ++ more) = (scope.after acts).after more :=
  List.foldl_append

theorem grows_enact {scope : Scope α} (hscope : scope.Level) (act : Act α) :
    scope.Grows (scope.enact act) := by
  cases act with
  | define name initial => exact Grows.refl.define name initial
  | compile script s => exact script.grows_compile hscope s
  | compileEach script s => exact script.grows_compileEach hscope s

theorem grows_after {scope : Scope α} (hscope : scope.Level) (acts : List (Act α)) :
    scope.Grows (scope.after acts) := by
  induction acts generalizing scope with
  | nil => exact .refl
  | cons act acts ih =>
    have hgrows := grows_enact hscope act
    exact hgrows.trans (ih (hgrows.level hscope))

theorem coherent_after (globals : List String) (acts : List (Act α)) :
    ((empty globals).after acts).Coherent :=
  (grows_after (level_empty globals) acts).coherent (coherent_empty globals)

/-- **The tables of a scope agree throughout its history**, whatever was compiled, refused or broken
off in it.  A name means the greatest slot of that name, and nothing exactly if no slot has the
name; there are as many initial values as names; and whatever happens next, the names so far stay
in their slots. -/
theorem coherent_throughout (globals : List String) (acts : List (Act α)) :
    let scope := (empty globals).after acts
    (∀ name (slot : Nat), scope.slot? name = some slot ↔
      IsGreatest {k : Int | scope.name? k = some name} slot) ∧
    (∀ name, scope.slot? name = none ↔ ∀ k, scope.name? k ≠ some name) ∧
    scope.initials.size = scope.names.length ∧
    (∀ k : Nat, (scope.initial? k).isSome ↔ k < scope.names.length) ∧
    ∀ act, scope.names <+: (scope.enact act).names := by
  intro scope
  have hscope : scope.Coherent := coherent_after globals acts
  exact ⟨fun _ _ => hscope.slot?_eq_some_iff, fun _ => hscope.slot?_eq_none_iff,
    hscope.length_initials, hscope.isSome_initial?_iff,
    fun act => (grows_enact hscope.level act).prefix_names⟩

end Scope

end StackScript
