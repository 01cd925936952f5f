import StackScript.Proofs.PassPlan
import StackScript.Proofs.Supported

/-!
# Acceptance

A tree is compiled exactly when all constructs that are reached in it are supported.  Compilation is
a plan, so the question is where there is one (`Planned.Succeeds`).  For expressions and statements
this is an induction over the tree.

Patterns need more care: their value is planned anew for every name, at the depth of that name and
with the names so far in scope.  `Pattern.succeeds_some_iff` takes the pattern and the value apart,
`Expr.assignable_iff` replaces the growing scope by the one with the first name, and
`Pattern.sound_iff` says the same of what is reached.
-/

namespace StackScript

variable {α : Type}

/-! ### Plans that exist -/

namespace Planned

/-- There is a plan. -/
def Succeeds (x : Planned) : Prop := ∃ a, x = .ok a

theorem succeeds_ok (a : Plan) : Succeeds (.ok a) := ⟨a, rfl⟩

theorem succeeds_pure (a : Plan) : Succeeds (pure a) := ⟨a, rfl⟩

theorem not_succeeds_error (f : Fault) : ¬Succeeds (.error f) := by
  rintro ⟨a, ha⟩
  cases ha

theorem not_succeeds_refusal (pos : Position) (cause : Cause) : ¬Succeeds (refusal pos cause) :=
  not_succeeds_error _

theorem succeeds_bind_iff {β : Type} {x : Except Fault β} {f : β → Planned} :
    Succeeds (x >>= f) ↔ ∃ b, x = .ok b ∧ Succeeds (f b) := by
  constructor
  · rintro ⟨a, ha⟩
    obtain ⟨b, hb, hf⟩ := bind_eq_ok_iff.1 ha
    exact ⟨b, hb, a, hf⟩
  · rintro ⟨b, hb, a, ha⟩
    exact ⟨a, bind_eq_ok_iff.2 ⟨b, hb, ha⟩⟩

theorem succeeds_join_iff {x y : Planned} : Succeeds (join x y) ↔ Succeeds x ∧ Succeeds y := by
  constructor
  · rintro ⟨a, ha⟩
    obtain ⟨b, c, hb, hc, -⟩ := join_eq_ok_iff.1 ha
    exact ⟨⟨b, hb⟩, ⟨c, hc⟩⟩
  · rintro ⟨⟨b, hb⟩, ⟨c, hc⟩⟩
    exact ⟨_, join_eq_ok_iff.2 ⟨b, c, hb, hc, rfl⟩⟩

theorem succeeds_fork_iff {x y : Planned} : Succeeds (fork x y) ↔ Succeeds x ∧ Succeeds y := by
  constructor
  · rintro ⟨a, ha⟩
    obtain ⟨b, c, hb, hc, -⟩ := fork_eq_ok_iff.1 ha
    exact ⟨⟨b, hb⟩, ⟨c, hc⟩⟩
  · rintro ⟨⟨b, hb⟩, ⟨c, hc⟩⟩
    exact ⟨_, fork_eq_ok_iff.2 ⟨b, c, hb, hc, rfl⟩⟩

end Planned

open Planned

theorem Settings.allow_eq_ok_iff {s : Settings} {depth : Nat} {pos : Position} {u : Unit} :
    s.allow depth pos = .ok u ↔ ((depth + 1 : Nat) : Int) ≤ s.maxDepth := by
  unfold allow
  split
  · next h => simp; omega
  · next h => simp; omega

theorem Scope.defineAll_concat (scope : Scope α) (names : List String) (name : String) :
    scope.defineAll (names ++ [name]) = ((scope.defineAll names).define name none).2 := by
  rw [defineAll_append, defineAll_cons, defineAll_nil]

theorem Scope.isSome_slot?_defineAll (scope : Scope α) (names : List String) (name : String) :
    ((scope.defineAll names).slot? name).isSome ↔ name ∈ names ∨ (scope.slot? name).isSome := by
  induction names generalizing scope with
  | nil => simp
  | cons n names ih =>
    rw [defineAll_cons, ih, slot?_define]
    by_cases h : n = name
    · simp [h]
    · simp [h, Ne.symm h]

theorem Operation.isSome_ofSign?_iff (sign : String) :
    (Operation.ofSign? sign).isSome ↔ sign ∈ Reached.operatorSigns := by
  unfold ofSign? Reached.operatorSigns
  split <;> simp_all

/-! ### Expressions -/

variable {source : ByteArray} {s : Settings} {scope : Scope α} {depth : Nat}

namespace Expr

variable {σ : Scope α} {pos : Position}

theorem succeeds_number_iff {text : Lexeme} :
    Succeeds ((Expr.number pos text).plan s depth σ) ↔ ((depth + 1 : Nat) : Int) ≤ s.maxDepth ∧
      ∃ t, text = .ok t ∧ Literal.isBigint t = false ∧ (Literal.number? t).isSome := by
  simp only [plan, succeeds_bind_iff, Settings.allow_eq_ok_iff, readable_eq_ok_iff,
    numberConstant_eq_ok_iff, succeeds_pure, and_true, exists_const, Option.isSome_iff_exists]
  simp

theorem succeeds_boolean_iff {value : Bool} :
    Succeeds ((Expr.boolean pos value).plan s depth σ) ↔
      ((depth + 1 : Nat) : Int) ≤ s.maxDepth := by
  simp only [plan, succeeds_bind_iff, Settings.allow_eq_ok_iff, succeeds_pure, and_true,
    exists_const]

theorem succeeds_string_iff {text : Lexeme} :
    Succeeds ((Expr.string pos text).plan s depth σ) ↔ ((depth + 1 : Nat) : Int) ≤ s.maxDepth ∧
      ∃ t value, text = .ok t ∧ Literal.string t = .ok value := by
  simp only [plan, succeeds_bind_iff, Settings.allow_eq_ok_iff, readable_eq_ok_iff,
    stringConstant_eq_ok_iff, succeeds_pure, and_true, exists_const]
  simp

theorem succeeds_identifier_iff {name : Lexeme} :
    Succeeds ((Expr.identifier pos name).plan s depth σ) ↔
      ((depth + 1 : Nat) : Int) ≤ s.maxDepth ∧ ∃ n, name = .ok n ∧ (σ.slot? n).isSome := by
  simp only [plan, succeeds_bind_iff, Settings.allow_eq_ok_iff, readable_eq_ok_iff,
    Scope.slotOf_eq_ok_iff, succeeds_pure, and_true, exists_const, Option.isSome_iff_exists]

theorem succeeds_parenthesized_iff {inner : Expr} :
    Succeeds ((Expr.parenthesized pos inner).plan s depth σ) ↔
      ((depth + 1 : Nat) : Int) ≤ s.maxDepth ∧ Succeeds (inner.plan s (depth + 1) σ) := by
  simp only [plan, succeeds_bind_iff, Settings.allow_eq_ok_iff, exists_const]

theorem succeeds_binary_iff {left right : Expr} {operator : Lexeme} :
    Succeeds ((Expr.binary pos left right operator).plan s depth σ) ↔
      (((depth + 1 : Nat) : Int) ≤ s.maxDepth ∧
          ∃ sign ∈ Reached.operatorSigns, operator = .ok sign) ∧
        Succeeds (left.plan s (depth + 1) σ) ∧ Succeeds (right.plan s (depth + 1) σ) := by
  simp only [plan, succeeds_bind_iff, succeeds_join_iff, Settings.allow_eq_ok_iff,
    readable_eq_ok_iff, operationOf_eq_ok_iff, succeeds_pure, and_true, exists_const,
    ← Operation.isSome_ofSign?_iff, Option.isSome_iff_exists]
  tauto

end Expr

/-- **An expression is planned** exactly when it and all that it leads to are supported. -/
theorem Expr.succeeds_iff {t : SyntaxTree} (ht : t.Whole source) {visible : List String} :
    Succeeds ((Expr.ofTree source t).plan s depth (scope.defineAll visible)) ↔
      (⟨.expression t, depth + 1, visible⟩ : Reached).Sound source s.maxDepth scope := by
  induction t using SyntaxTree.induction_children generalizing depth with
  | h t ih =>
    rw [Reached.sound_iff]
    obtain ⟨i, cs⟩ := t
    have hkind : (SyntaxTree.node i cs).kind = i.kind := rfl
    rw [Expr.ofTree]
    split
    · next h =>
      rw [succeeds_number_iff]
      simp [Reached.Supported, Reached.parts, Reached.operands, hkind, h]
    · next h =>
      rw [succeeds_boolean_iff]
      simp [Reached.Supported, Reached.parts, Reached.operands, hkind, h]
    · next h =>
      rw [succeeds_boolean_iff]
      simp [Reached.Supported, Reached.parts, Reached.operands, hkind, h]
    · next h =>
      rw [succeeds_string_iff]
      simp [Reached.Supported, Reached.parts, Reached.operands, hkind, h]
    · next h =>
      rw [succeeds_identifier_iff]
      simp [Reached.Supported, Reached.parts, Reached.operands, hkind, h,
        Scope.isSome_slot?_defineAll]
    · next h =>
      obtain ⟨c, hc, hmem⟩ := ht.exists_content (by simp [hkind, h])
      rw [succeeds_parenthesized_iff, Expr.ofFirst_eq,
        show (cs.filter SyntaxTree.isContent).head? = some c from hc]
      simp [Reached.Supported, Reached.parts, Reached.operands, hkind, h, hc,
        ih c hmem (ht.child hmem)]
    · next h =>
      obtain ⟨l, hl, hlmem⟩ := ht.exists_part "left" (by simp [hkind, h, partNames])
      obtain ⟨r, hr, hrmem⟩ := ht.exists_part "right" (by simp [hkind, h, partNames])
      obtain ⟨o, ho, -⟩ := ht.exists_part "operator" (by simp [hkind, h, partNames])
      rw [succeeds_binary_iff, Expr.ofField_eq, Expr.ofField_eq, fieldText,
        show cs.find? _ = some l from hl, show cs.find? _ = some r from hr,
        show cs.find? _ = some o from ho]
      simp [Reached.Supported, Reached.parts, Reached.operands, hkind, h, hl, hr, ho,
        ih l hlmem (ht.child hlmem), ih r hrmem (ht.child hrmem)]
    · next h1 h2 h3 h4 h5 h6 h7 =>
      have hunsupported : ¬(⟨.expression (.node i cs), depth + 1, visible⟩ : Reached).Supported
          source s.maxDepth scope := by
        rintro ⟨-, h⟩
        simp only [hkind] at h
      simp [hunsupported, Expr.plan, not_succeeds_refusal]

/-! ### Patterns -/

mutual

/-- The names that a pattern binds, each with the depth at which its value is planned. -/
def Pattern.binders (depth : Nat) : Pattern → List (Nat × String)
  | .identifier _ name => name.toOption.toList.map (depth + 1, ·)
  | .array _ elements => Pattern.bindersAll (depth + 1) elements
  | .object _ properties => (properties.flatMap Property.names).map (depth + 1, ·)
  | .unsupported _ _ | .broken _ => []

/-- The names that several patterns bind. -/
def Pattern.bindersAll (depth : Nat) : List Pattern → List (Nat × String)
  | [] => []
  | p :: ps => p.binders depth ++ Pattern.bindersAll depth ps

end

mutual

theorem Pattern.map_snd_binders (depth : Nat) :
    (p : Pattern) → (p.binders depth).map Prod.snd = p.names
  | .identifier _ name => by simp [binders, names, Function.comp_def]
  | .array _ elements => Pattern.map_snd_bindersAll (depth + 1) elements
  | .object _ properties => by simp [binders, names, Function.comp_def]
  | .unsupported .. => rfl
  | .broken _ => rfl

theorem Pattern.map_snd_bindersAll (depth : Nat) :
    (ps : List Pattern) → (Pattern.bindersAll depth ps).map Prod.snd = Pattern.namesAll ps
  | [] => rfl
  | p :: ps => by
    rw [bindersAll, namesAll, List.map_append, Pattern.map_snd_binders depth p,
      Pattern.map_snd_bindersAll depth ps]

end

/-- A value can be planned for names one after the other, each time with the names so far in
scope. -/
def Expr.Assignable (s : Settings) (e : Expr) : Scope α → List (Nat × String) → Prop
  | _, [] => True
  | σ, (depth, name) :: bs =>
    Succeeds (e.plan s depth (σ.define name none).2) ∧ e.Assignable s (σ.define name none).2 bs

theorem Expr.assignable_append_iff {e : Expr} {σ : Scope α} {bs cs : List (Nat × String)} :
    e.Assignable s σ (bs ++ cs) ↔
      e.Assignable s σ bs ∧ e.Assignable s (σ.defineAll (bs.map Prod.snd)) cs := by
  induction bs generalizing σ with
  | nil => simp [Assignable]
  | cons b bs ih => simp [Assignable, ih, and_assoc]

section Binding

variable {σ : Scope α} {e : Expr} {name : String}

theorem succeeds_bindingPlan_none (depth : Nat) (name : String) (σ : Scope α) :
    Succeeds (bindingPlan s depth none name σ) :=
  succeeds_ok _

theorem succeeds_bindingPlan_some_iff :
    Succeeds (bindingPlan s depth (some e) name σ) ↔ e.Assignable s σ [(depth, name)] := by
  simp [bindingPlan, succeeds_join_iff, succeeds_ok, Expr.Assignable]

theorem Property.succeeds_none_iff {ps : List Property} :
    Succeeds (Property.planAll s depth none σ ps) ↔ ∀ p ∈ ps, ∃ name, p.nameOf = .ok name := by
  induction ps generalizing σ with
  | nil => simp [planAll, succeeds_ok]
  | cons p ps ih =>
    simp [planAll, succeeds_bind_iff, succeeds_join_iff, succeeds_bindingPlan_none, ih]

theorem Property.succeeds_some_iff {ps : List Property} :
    Succeeds (Property.planAll s depth (some e) σ ps) ↔
      Succeeds (Property.planAll s depth none σ ps) ∧
        e.Assignable s σ ((ps.flatMap Property.names).map (depth, ·)) := by
  induction ps generalizing σ with
  | nil => simp [planAll, succeeds_ok, Expr.Assignable]
  | cons p ps ih =>
    simp only [planAll, succeeds_bind_iff, succeeds_join_iff, List.flatMap_cons, names]
    cases hname : p.nameOf with
    | error f => simp
    | ok name =>
      simp [ih, succeeds_bindingPlan_some_iff, succeeds_bindingPlan_none, Except.toOption,
        Expr.Assignable]
      tauto

mutual

/-- A pattern with a value is planned when the pattern itself is, and the value for all its
names. -/
theorem Pattern.succeeds_some_iff {depth : Nat} {σ : Scope α} : (p : Pattern) →
    (Succeeds (p.plan s depth (some e) σ) ↔
      Succeeds (p.plan s depth none σ) ∧ e.Assignable s σ (p.binders depth))
  | .identifier pos name => by
    simp only [plan, succeeds_bind_iff, readable_eq_ok_iff, binders]
    cases name with
    | error why => simp
    | ok name =>
      simp [succeeds_bindingPlan_some_iff, succeeds_bindingPlan_none, Except.toOption,
        Expr.Assignable]
  | .array pos elements => by
    simp only [plan, succeeds_bind_iff, binders, Pattern.succeedsAll_some_iff elements]
    tauto
  | .object pos properties => by
    simp only [plan, succeeds_bind_iff, binders, Property.succeeds_some_iff (e := e)]
    tauto
  | .unsupported .. => by simp [plan, not_succeeds_refusal]
  | .broken .. => by simp [plan, not_succeeds_error]

theorem Pattern.succeedsAll_some_iff {depth : Nat} {σ : Scope α} : (ps : List Pattern) →
    (Succeeds (Pattern.planAll s depth (some e) σ ps) ↔
      Succeeds (Pattern.planAll s depth none σ ps) ∧
        e.Assignable s σ (Pattern.bindersAll depth ps))
  | [] => by simp [planAll, bindersAll, succeeds_ok, Expr.Assignable]
  | p :: ps => by
    simp only [planAll, bindersAll, succeeds_join_iff, Expr.assignable_append_iff,
      Pattern.map_snd_binders, Pattern.succeeds_some_iff p, Pattern.succeedsAll_some_iff ps]
    tauto

end

end Binding

section Values

variable {t v : SyntaxTree} {visible before : List String} {level : Nat}

/-- Once a value is sound with some names, it is planned with these and more names wherever it is
not too deep. -/
theorem Expr.assignable_iff_of_sound (hv : v.Whole source) (hsub : visible ⊆ before)
    (h : (⟨.expression v, level, visible⟩ : Reached).Sound source s.maxDepth scope)
    (bs : List (Nat × String)) :
    (Expr.ofTree source v).Assignable s (scope.defineAll before) bs ↔
      ∀ b ∈ bs, (⟨.expression v, b.1 + 1, visible⟩ : Reached).Sound source s.maxDepth scope := by
  induction bs generalizing before with
  | nil => simp [Assignable]
  | cons b bs ih =>
    obtain ⟨depth, name⟩ := b
    have hsub' : visible ⊆ before ++ [name] := List.subset_append_of_subset_left _ hsub
    rw [Assignable, ← Scope.defineAll_concat, Expr.succeeds_iff hv, ih hsub', List.forall_mem_cons]
    refine and_congr_left fun _ => ⟨fun hname => hname.exchange h, fun hname => hname.mono hsub'⟩

/-- A value is planned for all names of a pattern when it is sound with the first of them: the
names behind it can only help. -/
theorem Expr.assignable_iff (hv : v.Whole source) (bs : List (Nat × String)) :
    (Expr.ofTree source v).Assignable s (scope.defineAll before) bs ↔
      ∀ b ∈ bs, (⟨.expression v, b.1 + 1, before ++ (bs.map Prod.snd).take 1⟩ : Reached).Sound
        source s.maxDepth scope := by
  cases bs with
  | nil => simp [Assignable]
  | cons b bs =>
    obtain ⟨depth, name⟩ := b
    rw [Assignable, ← Scope.defineAll_concat, Expr.succeeds_iff hv, List.forall_mem_cons]
    refine and_congr_right fun h => ?_
    exact Expr.assignable_iff_of_sound hv (List.Subset.refl _) h bs

end Values

section Trees

variable {t : SyntaxTree} {value : Option SyntaxTree} {visible : List String}

/-- Properties of a node are named when they are shorthands, or pairs with a plain key. -/
theorem Property.exists_nameOf_iff (ht : t.Whole source) :
    (∃ name, (Property.ofTree source t).nameOf = .ok name) ↔
      t.kind = "shorthand_property_identifier_pattern" ∨
        t.kind = "pair_pattern" ∧ ∃ key ∈ t.part? "key", key.kind = "property_identifier" := by
  unfold Property.ofTree
  split
  · next h =>
    obtain ⟨name, hname⟩ := ht.complete.text
    simp [nameOf, hname, h, readable_eq_ok_iff]
  split
  · next h =>
    obtain ⟨key, hkey, hmem⟩ := ht.exists_part "key" (by simp [h, partNames])
    obtain ⟨name, hname⟩ := (ht.child hmem).complete.text
    rw [show t.children.find? _ = some key from hkey]
    dsimp only [nameOf, PropertyKey.ofTree]
    split
    · next hplain => simp [PropertyKey.nameOf, hname, h, hkey, hplain, readable_eq_ok_iff]
    split
    · next hplain hcomputed => simp [PropertyKey.nameOf, h, hkey, hplain]
    · next hplain hcomputed => simp [PropertyKey.nameOf, h, hkey, hplain]
  · next hshorthand hpair => simp [nameOf, hshorthand, hpair]

/-- A property is sound when it has a name, and its value is sound below it. -/
theorem Property.sound_iff (ht : t.Whole source) {level : Nat} :
    (⟨.property t value, level, visible⟩ : Reached).Sound source s.maxDepth scope ↔
      (level ≤ s.maxDepth ∧ ∃ name, (Property.ofTree source t).nameOf = .ok name) ∧
        ∀ v ∈ value,
          (⟨.expression v, level + 1, visible⟩ : Reached).Sound source s.maxDepth scope := by
  rw [Reached.sound_iff, Property.exists_nameOf_iff ht]
  simp [Reached.Supported, Reached.parts]

theorem Property.forall_sound_iff {level : Nat} (hlevel : level ≤ s.maxDepth)
    {ts : List SyntaxTree} (hts : ∀ t ∈ ts, t.Whole source) (σ : Scope α) :
    (∀ t ∈ ts, (⟨.property t value, level, visible⟩ : Reached).Sound source s.maxDepth scope) ↔
      Succeeds (Property.planAll s level none σ (ts.map (Property.ofTree source))) ∧
        ∀ v ∈ value, ∀ name ∈ (ts.map (Property.ofTree source)).flatMap Property.names,
          (⟨.expression v, level + 1, visible⟩ : Reached).Sound source s.maxDepth scope := by
  rw [Property.succeeds_none_iff]
  induction ts with
  | nil => simp
  | cons t ts ih =>
    obtain ⟨ht, hts⟩ := List.forall_mem_cons.1 hts
    rw [List.forall_mem_cons, Property.sound_iff ht, ih hts]
    simp only [List.map_cons, List.flatMap_cons, List.forall_mem_cons, List.forall_mem_append,
      forall_and, names]
    cases hname : (Property.ofTree source t).nameOf with
    | error f => simp
    | ok name =>
      simp [hlevel, Except.toOption]
      tauto

theorem Pattern.forall_sound_iff (depth : Nat) (ts : List SyntaxTree)
    (h : ∀ t ∈ ts, ∀ σ : Scope α,
      (⟨.pattern t value, depth + 1, visible⟩ : Reached).Sound source s.maxDepth scope ↔
        Succeeds ((Pattern.ofTree source t).plan s depth none σ) ∧
          ∀ v ∈ value, ∀ b ∈ (Pattern.ofTree source t).binders depth,
            (⟨.expression v, b.1 + 1, visible⟩ : Reached).Sound source s.maxDepth scope)
    (σ : Scope α) :
    (∀ t ∈ ts, (⟨.pattern t value, depth + 1, visible⟩ : Reached).Sound source s.maxDepth scope) ↔
      Succeeds (Pattern.planAll s depth none σ (ts.map (Pattern.ofTree source))) ∧
        ∀ v ∈ value, ∀ b ∈ Pattern.bindersAll depth (ts.map (Pattern.ofTree source)),
          (⟨.expression v, b.1 + 1, visible⟩ : Reached).Sound source s.maxDepth scope := by
  induction ts generalizing σ with
  | nil => simp [planAll, bindersAll, succeeds_ok]
  | cons t ts ih =>
    obtain ⟨ht, hts⟩ := List.forall_mem_cons.1 h
    rw [List.forall_mem_cons, ht σ, ih hts (σ.defineAll (Pattern.ofTree source t).names)]
    simp only [List.map_cons, planAll, bindersAll, succeeds_join_iff, List.forall_mem_append,
      forall_and]
    tauto

/-- **Patterns.**  A pattern is sound when it is planned without a value, and its value is sound
right below every name. -/
theorem Pattern.sound_iff (ht : t.Whole source) (σ : Scope α) :
    (⟨.pattern t value, depth + 1, visible⟩ : Reached).Sound source s.maxDepth scope ↔
      Succeeds ((Pattern.ofTree source t).plan s depth none σ) ∧
        ∀ v ∈ value, ∀ b ∈ (Pattern.ofTree source t).binders depth,
          (⟨.expression v, b.1 + 1, visible⟩ : Reached).Sound source s.maxDepth scope := by
  induction t using SyntaxTree.induction_children generalizing depth σ with
  | h t ih =>
    rw [Reached.sound_iff]
    obtain ⟨i, cs⟩ := t
    have hkind : (SyntaxTree.node i cs).kind = i.kind := rfl
    rw [Pattern.ofTree]
    split
    · next h =>
      obtain ⟨name, hname⟩ := ht.complete.text
      simp [Reached.Supported, Reached.parts, hkind, h, hname, plan, binders, succeeds_bind_iff,
        Settings.allow_eq_ok_iff, readable_eq_ok_iff, succeeds_bindingPlan_none, Except.toOption]
    · next h =>
      have helements := Pattern.forall_sound_iff (depth + 1) (cs.filter SyntaxTree.isContent)
        (fun c hc σ => ih c (SyntaxTree.mem_children_of_mem_content hc)
          (ht.child (SyntaxTree.mem_children_of_mem_content hc)) σ) σ
      simp only [Reached.parts, hkind, h, List.forall_mem_map, SyntaxTree.content,
        SyntaxTree.children, plan, binders, succeeds_bind_iff, Settings.allow_eq_ok_iff,
        exists_const, Pattern.ofChildren_eq, helements, and_assoc]
      simp [Reached.Supported, hkind, h]
    · next h =>
      have hproperties : ∀ c ∈ cs.filter SyntaxTree.isContent, c.Whole source := fun c hc =>
        ht.child (SyntaxTree.mem_children_of_mem_content hc)
      simp only [Reached.parts, hkind, h, List.forall_mem_map, SyntaxTree.content,
        SyntaxTree.children, plan, binders, succeeds_bind_iff, Settings.allow_eq_ok_iff,
        exists_const, and_assoc]
      simp only [Reached.Supported, hkind, h]
      simp only [List.mem_cons, true_or, or_true, and_true]
      refine and_congr_right fun hlevel => ?_
      exact Property.forall_sound_iff hlevel hproperties σ
    · next h1 h2 h3 =>
      have hunsupported : ¬(⟨.pattern (.node i cs) value, depth + 1, visible⟩ : Reached).Supported
          source s.maxDepth scope := by
        rintro ⟨-, h⟩
        simp_all
      simp [hunsupported, plan, not_succeeds_refusal]

/-- **Declarations.**  Declarators are planned exactly when all that they lead to is supported. -/
theorem Declarator.succeeds_iff {ts : List SyntaxTree} (hts : ∀ t ∈ ts, t.Whole source)
    (hkind : ∀ t ∈ ts, t.kind = "variable_declarator") :
    Succeeds (Declarator.planAll s depth (scope.defineAll visible)
        (ts.map (Declarator.ofTree source))) ↔
      ∀ r ∈ Reached.declarators source (depth + 1) visible ts, r.Sound source s.maxDepth scope := by
  induction ts generalizing visible with
  | nil => simp [planAll, Reached.declarators, succeeds_ok]
  | cons t ts ih =>
    obtain ⟨ht, hts⟩ := List.forall_mem_cons.1 hts
    obtain ⟨hvariable, hkind⟩ := List.forall_mem_cons.1 hkind
    obtain ⟨p, hp, hmem⟩ := ht.exists_part "name" (by simp [hvariable, partNames])
    have htarget : (Declarator.ofTree source t).target = Pattern.ofTree source p := by
      simp only [Declarator.ofTree, show t.children.find? _ = some p from hp]
    rw [List.map_cons, planAll, succeeds_join_iff, htarget, ← Scope.defineAll_append, ih hts hkind,
      Reached.declarators, hp, htarget]
    simp only [Option.toList_some, List.map_cons, List.map_nil, List.forall_mem_append,
      List.forall_mem_singleton]
    refine and_congr_left fun _ => ?_
    rw [Pattern.sound_iff (ht.child hmem) (scope.defineAll visible)]
    cases hvalue : t.part? "value" with
    | none =>
      rw [show (Declarator.ofTree source t).value = none by
        simp [Declarator.ofTree, show t.children.find? _ = none from hvalue]]
      simp
    | some v =>
      have hv := ht.child (SyntaxTree.mem_children_of_part? hvalue)
      rw [show (Declarator.ofTree source t).value = some (Expr.ofTree source v) by
        simp [Declarator.ofTree, show t.children.find? _ = some v from hvalue]]
      rw [Pattern.succeeds_some_iff, Expr.assignable_iff hv, Pattern.map_snd_binders]
      simp

end Trees

/-! ### Statements -/

section Statements

variable {t : SyntaxTree} {visible : List String}

namespace Stmt

variable {σ : Scope α} {pos : Position}

theorem succeeds_expression_iff {value : Expr} :
    Succeeds ((Stmt.expression pos value).plan s depth σ) ↔
      ((depth + 1 : Nat) : Int) ≤ s.maxDepth ∧ Succeeds (value.plan s (depth + 1) σ) := by
  simp only [plan, succeeds_bind_iff, Settings.allow_eq_ok_iff, exists_const]

theorem succeeds_lexical_iff {kind : Lexeme} {ds : List Declarator} :
    Succeeds ((Stmt.lexical pos kind ds).plan s depth σ) ↔
      (((depth + 1 : Nat) : Int) ≤ s.maxDepth ∧ kind = .ok "let") ∧
        Succeeds (Declarator.planAll s (depth + 1) σ ds) := by
  simp only [plan, succeeds_bind_iff, Settings.allow_eq_ok_iff, exists_const, readable_eq_ok_iff,
    and_assoc]
  refine and_congr_right fun _ => ?_
  constructor
  · rintro ⟨word, rfl, h⟩
    split at h
    · exact absurd h (not_succeeds_refusal _ _)
    · next hword => exact ⟨by simpa using hword, h⟩
  · rintro ⟨rfl, h⟩
    exact ⟨"let", rfl, h⟩

theorem succeeds_ifThen_iff {test : Expr} {body : Stmt} :
    Succeeds ((Stmt.ifThen pos test body).plan s depth σ) ↔
      ((depth + 1 : Nat) : Int) ≤ s.maxDepth ∧ Succeeds (test.plan s (depth + 1) σ) ∧
        Succeeds (body.plan s (depth + 1) σ) := by
  simp only [plan, succeeds_bind_iff, succeeds_join_iff, succeeds_fork_iff,
    Settings.allow_eq_ok_iff, exists_const, succeeds_ok, and_true]

theorem succeeds_ifElse_iff {test : Expr} {body alternative : Stmt} :
    Succeeds ((Stmt.ifElse pos test body alternative).plan s depth σ) ↔
      ((depth + 1 : Nat) : Int) ≤ s.maxDepth ∧ Succeeds (test.plan s (depth + 1) σ) ∧
        Succeeds (body.plan s (depth + 1) σ) ∧
        Succeeds (alternative.plan s (depth + 1) (σ.defineAll body.names)) := by
  simp only [plan, succeeds_bind_iff, succeeds_join_iff, succeeds_fork_iff,
    Settings.allow_eq_ok_iff, exists_const]

theorem succeeds_empty_iff :
    Succeeds ((Stmt.empty pos).plan s depth σ) ↔ ((depth + 1 : Nat) : Int) ≤ s.maxDepth := by
  simp only [plan, succeeds_bind_iff, Settings.allow_eq_ok_iff, succeeds_pure, and_true,
    exists_const]

theorem succeeds_block_iff {body : List Stmt} :
    Succeeds ((Stmt.block pos body).plan s depth σ) ↔
      ((depth + 1 : Nat) : Int) ≤ s.maxDepth ∧ Succeeds (Stmt.planAll s (depth + 1) σ body) := by
  simp only [plan, succeeds_bind_iff, Settings.allow_eq_ok_iff, exists_const]

theorem not_succeeds_foreign {kind : String} :
    ¬Succeeds ((Stmt.foreign pos kind).plan s depth σ) := by
  simp [plan, succeeds_bind_iff, not_succeeds_refusal]

/-- Statements one after the other are planned when each is, behind those before it. -/
theorem succeeds_sequence_iff (scope : Scope α) (depth : Nat) (ts : List SyntaxTree)
    (h : ∀ t ∈ ts, ∀ visible, Succeeds ((Stmt.ofTree source t).plan s depth
      (scope.defineAll visible)) ↔
        (⟨.statement t, depth + 1, visible⟩ : Reached).Sound source s.maxDepth scope)
    (visible : List String) :
    Succeeds (Stmt.planAll s depth (scope.defineAll visible) (ts.map (Stmt.ofTree source))) ↔
      ∀ r ∈ Reached.sequence source (depth + 1) visible ts, r.Sound source s.maxDepth scope := by
  induction ts generalizing visible with
  | nil => simp [planAll, Reached.sequence, succeeds_ok]
  | cons t ts ih =>
    obtain ⟨ht, hts⟩ := List.forall_mem_cons.1 h
    rw [List.map_cons, planAll, succeeds_join_iff, ht, ← Scope.defineAll_append, ih hts,
      Reached.sequence, List.forall_mem_cons]

end Stmt

/-- **A statement is planned** exactly when it and all that it leads to are supported. -/
theorem Stmt.succeeds_iff (ht : t.Whole source) :
    Succeeds ((Stmt.ofTree source t).plan s depth (scope.defineAll visible)) ↔
      (⟨.statement t, depth + 1, visible⟩ : Reached).Sound source s.maxDepth scope := by
  induction t using SyntaxTree.induction_below generalizing depth visible with
  | h t ih =>
    rw [Reached.sound_iff]
    obtain ⟨i, cs⟩ := t
    have hkind : (SyntaxTree.node i cs).kind = i.kind := rfl
    rw [Stmt.ofTree]
    split
    · next h =>
      obtain ⟨c, hc, hmem⟩ := ht.exists_content (by simp [hkind, h])
      rw [succeeds_expression_iff, Expr.ofFirst_eq,
        show (cs.filter SyntaxTree.isContent).head? = some c from hc]
      simp [Reached.Supported, Reached.parts, hkind, h, hc, Expr.succeeds_iff (ht.child hmem)]
    · next h =>
      have hdeclarators : ∀ c ∈ cs.filter fun c => c.info.named && c.kind == "variable_declarator",
          c.Whole source := fun c hc => ht.child (List.mem_of_mem_filter hc)
      rw [succeeds_lexical_iff, declarators, Declarator.succeeds_iff hdeclarators (by simp)]
      simp [Reached.Supported, Reached.parts, hkind, h, SyntaxTree.children]
    · next h => simp [not_succeeds_foreign, Reached.Supported, hkind, h]
    · next h => simp [not_succeeds_foreign, Reached.Supported, hkind, h]
    · next h => simp [not_succeeds_foreign, Reached.Supported, hkind, h]
    · next h => simp [not_succeeds_foreign, Reached.Supported, hkind, h]
    · next h =>
      obtain ⟨c, hc, hcmem⟩ := ht.exists_part "condition" (by simp [hkind, h, partNames])
      obtain ⟨b, hb, hbmem⟩ := ht.exists_part "consequence" (by simp [hkind, h, partNames])
      have halternative : Stmt.ofAlternative? source cs = _ := ht.ofAlternative?_children
      rw [Expr.ofField_eq, Stmt.ofField?_eq, halternative, show cs.find? _ = some c from hc,
        show cs.find? _ = some b from hb]
      cases ha : (SyntaxTree.node i cs).alternative? with
      | none =>
        dsimp only [Option.map_none, Option.map_some, Option.getD_some]
        rw [succeeds_ifThen_iff, Expr.succeeds_iff (ht.child hcmem),
          ih b hbmem b .refl (ht.child hbmem)]
        simp [Reached.Supported, Reached.parts, hkind, h, hc, hb, ha]
      | some a =>
        dsimp only [Option.map_some, Option.getD_some]
        obtain ⟨d, hd, hda⟩ := SyntaxTree.exists_holds_of_alternative? ha
        rw [succeeds_ifElse_iff, Expr.succeeds_iff (ht.child hcmem),
          ih b hbmem b .refl (ht.child hbmem), ← Scope.defineAll_append,
          ih d hd a hda ((ht.child hd).holds hda)]
        simp [Reached.Supported, Reached.parts, hkind, h, hc, hb, ha, or_imp, forall_and]
    · next h => simp [succeeds_empty_iff, Reached.Supported, Reached.parts, hkind, h]
    · next h =>
      have hcontent : ∀ c ∈ cs.filter SyntaxTree.isContent, c ∈ cs := fun c hc =>
        List.mem_of_mem_filter hc
      rw [succeeds_block_iff, Stmt.ofChildren_eq, Stmt.succeeds_sequence_iff scope (depth + 1) _
        fun c hc visible => ih c (hcontent c hc) c .refl (ht.child (hcontent c hc))]
      simp [Reached.Supported, Reached.parts, hkind, h, SyntaxTree.content, SyntaxTree.children]
    · next h1 h2 h3 h4 h5 h6 h7 h8 h9 =>
      have hunsupported : ¬(⟨.statement (.node i cs), depth + 1, visible⟩ : Reached).Supported
          source s.maxDepth scope := by
        rintro ⟨-, h⟩
        simp only [hkind] at h
      simp [hunsupported, plan, not_succeeds_refusal]

end Statements

/-! ### Scripts -/

theorem intact_eq_ok_iff {d : Option Damage} {u : Unit} : intact d = .ok u ↔ d = none := by
  cases d with
  | none => simp [intact]
  | some d => simp [intact, bind_eq_ok_iff]

namespace Script

/-- A script is compiled where it has a plan. -/
theorem exists_program_iff {script : Script} {s : Settings} {scope : Scope α} :
    (∃ program, (script.compile s scope).result = .ok program) ↔
      Succeeds (script.plan s scope) := by
  constructor
  · rintro ⟨program, h⟩
    obtain ⟨a, ha, -⟩ := compile_eq_ok_iff.1 h
    exact ⟨a, ha⟩
  · rintro ⟨a, ha⟩
    exact ⟨a.program s.name, compile_eq_ok_iff.2 ⟨a, ha, rfl⟩⟩

/-- **The supported language.**  A tree whose nodes are complete is compiled exactly when nothing in
it violates the grammar, and all constructs that are reached from its outermost statements are
supported. -/
theorem exists_program_iff_supported {root : SyntaxTree} (hroot : root.Whole source)
    (s : Settings) (scope : Scope α) :
    (∃ program, ((Script.ofTree source root).compile s scope).result = .ok program) ↔
      root.info.hasError = false ∧
        ∀ r ∈ Reached.outermost source root, ∀ q, r.Reaches source q →
          q.Supported source s.maxDepth scope := by
  have hstmts : Succeeds (Stmt.planAll s 0 scope (root.content.map (Stmt.ofTree source))) ↔
      ∀ r ∈ Reached.outermost source root, r.Sound source s.maxDepth scope := by
    refine Stmt.succeeds_sequence_iff scope 0 root.content (fun t ht visible => ?_) []
    exact Stmt.succeeds_iff (hroot.child (SyntaxTree.mem_children_of_mem_content ht))
  rw [exists_program_iff, plan, succeeds_bind_iff, stmts_ofTree, hstmts]
  simp [intact_eq_ok_iff, Script.ofTree, SyntaxTree.damage?, Reached.Sound]

namespace PairTree

def leaf (kind : String) (start stop : Nat) (field : Option String) : SyntaxTree :=
  .node ⟨kind, start, stop, 0, start, kind == "identifier", false, false, field⟩ []

def first : SyntaxTree := leaf "identifier" 5 6 none

def second : SyntaxTree := leaf "identifier" 8 9 none

def value : SyntaxTree := leaf "identifier" 13 14 (some "value")

def target : SyntaxTree :=
  .node ⟨"array_pattern", 4, 10, 0, 4, true, false, false, some "name"⟩
    [leaf "[" 4 5 none, first, leaf "," 6 7 none, second, leaf "]" 9 10 none]

def declaration : SyntaxTree :=
  .node ⟨"lexical_declaration", 0, 14, 0, 0, true, false, false, none⟩
    [leaf "let" 0 3 (some "kind"),
      .node ⟨"variable_declarator", 4, 14, 0, 4, true, false, false, none⟩
        [target, leaf "=" 11 12 none, value]]

/-- The tree of `let [a, b] = a`, and of `let [a, b] = b`. -/
def root : SyntaxTree := .node ⟨"program", 0, 14, 0, 0, true, false, false, none⟩ [declaration]

/-- The value is reached below both names, where of the two the first one is visible. -/
theorem forall_sound_iff {limit : Int} (hlimit : 4 ≤ limit)
    (hword : declarationKind source declaration.children = .ok "let")
    (hnames : (Pattern.ofTree source target).names = ["a", "b"]) :
    (∀ r ∈ Reached.outermost source root, r.Sound source limit scope) ↔
      (⟨.expression value, 4, ["a"]⟩ : Reached).Supported source limit scope := by
  have hroot : Reached.outermost source root = [⟨.statement declaration, 1, []⟩] := by
    simp [Reached.outermost, Reached.sequence, SyntaxTree.content, root, declaration,
      SyntaxTree.children, SyntaxTree.isContent, SyntaxTree.isComment, SyntaxTree.kind,
      SyntaxTree.info]
  have hdeclaration : Reached.parts source ⟨.statement declaration, 1, []⟩ =
      [⟨.pattern target (some value), 2, (Pattern.ofTree source target).names.take 1⟩] := by
    simp [Reached.parts, Reached.declarators, Declarator.ofTree, SyntaxTree.part?, declaration,
      target, value, leaf, SyntaxTree.children, SyntaxTree.kind, SyntaxTree.info]
  have htarget : Reached.parts source ⟨.pattern target (some value), 2, ["a"]⟩ =
      [first, second].map (⟨.pattern · (some value), 3, ["a"]⟩) := rfl
  have hname : ∀ t ∈ [first, second], t.kind = "identifier" := by decide
  have hvalue : Reached.parts source ⟨.expression value, 4, ["a"]⟩ = [] := rfl
  have hnamed : ∀ t ∈ [first, second],
      (⟨.pattern t (some value), 3, ["a"]⟩ : Reached).Sound source limit scope ↔
        (⟨.expression value, 4, ["a"]⟩ : Reached).Supported source limit scope := by
    intro t ht
    have hparts : Reached.parts source ⟨.pattern t (some value), 3, ["a"]⟩ =
        [⟨.expression value, 4, ["a"]⟩] := by simp [Reached.parts, hname t ht]
    have hself : (⟨.pattern t (some value), 3, ["a"]⟩ : Reached).Supported source limit scope :=
      ⟨by dsimp only; omega, by simp [hname t ht]⟩
    rw [Reached.sound_iff, hparts, List.forall_mem_singleton, Reached.sound_iff, hvalue]
    simp [hself]
  have hpattern : (⟨.pattern target (some value), 2, ["a"]⟩ : Reached).Supported source limit
      scope := ⟨by dsimp only; omega, by dsimp only; decide⟩
  have hstatement : (⟨.statement declaration, 1, []⟩ : Reached).Supported source limit scope :=
    ⟨by dsimp only; omega, hword⟩
  rw [hroot, List.forall_mem_singleton, Reached.sound_iff, hdeclaration, hnames,
    List.forall_mem_singleton]
  change _ ∧ (⟨.pattern target (some value), 2, ["a"]⟩ : Reached).Sound source limit scope ↔ _
  rw [Reached.sound_iff, htarget, List.forall_mem_map]
  simp [hpattern, hstatement, hnamed]

/-- In the value of a pattern its first name may stand, and the second one may not. -/
theorem pair_of_own_name_supported :
    (∃ program, ((Script.ofTree "let [a, b] = a".toUTF8 root).compile .standard
      (.empty [] : Scope Unit)).result = .ok program) ∧
    ¬∃ program, ((Script.ofTree "let [a, b] = b".toUTF8 root).compile .standard
      (.empty [] : Scope Unit)).result = .ok program := by
  have ha : root.Whole "let [a, b] = a".toUTF8 := by decide +kernel
  have hb : root.Whole "let [a, b] = b".toUTF8 := by decide +kernel
  have hlimit : 4 ≤ Settings.standard.maxDepth := by decide
  constructor
  · have hword : declarationKind "let [a, b] = a".toUTF8 declaration.children = .ok "let" := by
      with_unfolding_all rfl
    have hnames : (Pattern.ofTree "let [a, b] = a".toUTF8 target).names = ["a", "b"] := by
      with_unfolding_all rfl
    have hvalue : value.text "let [a, b] = a".toUTF8 = .ok "a" := by with_unfolding_all rfl
    refine (exists_program_iff_supported ha .standard (.empty [])).2 ⟨rfl, ?_⟩
    exact (forall_sound_iff hlimit hword hnames).2 ⟨hlimit, "a", hvalue, .inl (by simp)⟩
  · intro h
    have hword : declarationKind "let [a, b] = b".toUTF8 declaration.children = .ok "let" := by
      with_unfolding_all rfl
    have hnames : (Pattern.ofTree "let [a, b] = b".toUTF8 target).names = ["a", "b"] := by
      with_unfolding_all rfl
    have hvalue : value.text "let [a, b] = b".toUTF8 = .ok "b" := by with_unfolding_all rfl
    have hsound := ((exists_program_iff_supported hb .standard (.empty [])).1 h).2
    obtain ⟨-, name, htext, hname⟩ := (forall_sound_iff hlimit hword hnames).1 hsound
    obtain rfl : "b" = name := Except.ok.inj (hvalue.symm.trans htext)
    simp [Scope.slot?, Scope.empty] at hname

end PairTree

end Script

end StackScript
