import StackScript.Proofs.Dialogue
import StackScript.Proofs.StatementTrees
import StackScript.Proofs.StringReading

/-!
# How compilation breaks down

An input of an interactive session is compiled or refused, and a refused one changes nothing; with
one exception.  An escape in a string may name a number of more than thirty-one bits, and there the
session breaks down, with names left over from the input.

* `HugeEscape` : a text holds such an escape;
* `SyntaxTree.Tame` : nothing but such an escape keeps a tree from being compiled or refused;
* `Parser.Faithful` : what the parser is trusted with;
* `Session.submit_breaks_only_by_hugeEscape` : there is no other way to break a session.
-/

namespace StackScript

variable {α β γ : Type}

/-! ### Escapes -/

/-- A text holds an escape for a number of more than thirty-one bits. -/
def HugeEscape (cs : List Char) : Prop :=
  ∃ before digits behind, cs = before ++ '\\' :: 'u' :: '{' :: (digits ++ '}' :: behind) ∧
    digits.all Text.isHexDigit = true ∧ 0x80000000 ≤ Literal.ofHex digits

theorem HugeEscape.mono {cs ds : List Char} (h : HugeEscape cs) (hsub : cs <:+: ds) :
    HugeEscape ds := by
  obtain ⟨before, digits, behind, rfl, hdigits, hvalue⟩ := h
  obtain ⟨front, back, rfl⟩ := hsub
  exact ⟨front ++ before, digits, behind ++ back, by simp, hdigits, hvalue⟩

namespace Literal

theorem codePoint_eq_overflow_iff {n : Nat} :
    codePoint n = .error .overflow ↔ 0x80000000 ≤ n := by
  have hpow : Nat.pow 2 31 = 0x80000000 := rfl
  unfold codePoint
  rw [hpow]
  split
  · simp; omega
  · split <;> simp <;> omega

/-- Of all escapes only a braced one can name so large a number. -/
theorem huge_of_escape? {cs : List Char} {x : Escape} (hx : escape? cs = some x)
    (h : x.value = .error .overflow) : HugeEscape ('\\' :: cs) := by
  cases cs with
  | nil => cases hx
  | cons c cs =>
    obtain ⟨e, rest, value, hcs, hlongest⟩ := exists_longestForm c cs
    rw [← hcs, hlongest.escape?_eq] at hx
    obtain rfl := Option.some.inj hx
    cases value with
    | none => cases h
    | some n =>
      have hn : 0x80000000 ≤ n := codePoint_eq_overflow_iff.1 h
      obtain ⟨ds, ns, rfl, hds, rfl⟩ := hlongest.form.exists_braced (by omega)
      refine ⟨[], ds, rest, by simp [← hcs], List.all_eq_true.2 (isHexDigit_of_forall₂ hds), ?_⟩
      rwa [ofHex_of_forall₂ hds]

theorem huge_of_unescape {skip : Nat} {cs : List Char}
    (h : unescape skip cs = .error .overflow) : HugeEscape cs := by
  have hcons {c : Char} {cs : List Char} (h : HugeEscape cs) : HugeEscape (c :: cs) :=
    h.mono (List.suffix_cons c cs).isInfix
  have hmap {f : List CodePoint → List CodePoint} {x : Except StringFault (List CodePoint)}
      (h : x.map f = .error .overflow) : x = .error .overflow := by
    cases x with
    | ok ps => cases h
    | error fault => exact congrArg _ (Except.error.inj h)
  fun_induction unescape skip cs with
  | case1 => cases h
  | case2 skip c cs ih => exact hcons (ih h)
  | case3 => cases h
  | case4 cs e he f hf => exact huge_of_escape? he (hf.trans (congrArg _ (Except.error.inj h)))
  | case5 cs e he p hp ih => exact hcons (ih (hmap h))
  | case6 c cs hc ih => exact hcons (ih (hmap h))

theorem huge_of_string {text : String} (h : string text = .error .overflow) :
    HugeEscape text.toList := by
  have hbody : unescape 0 (body text) = .error .overflow := by
    unfold string at h
    split at h
    · next f hf => exact hf.trans (congrArg _ (Except.error.inj h))
    · split at h <;> simp at h
  refine (huge_of_unescape hbody).mono ?_
  exact (List.dropLast_prefix _).isInfix.trans (List.tail_suffix _).isInfix

end Literal

/-! ### Steps -/

/-- If a step breaks down, then by an escape that is too large, and only under a condition. -/
def BreaksOnlyIf (P : Prop) (x : Except Fault β) : Prop :=
  ∀ why, x = .error (.broken why) → why = .hugeEscape ∧ P

namespace BreaksOnlyIf

variable {P : Prop}

theorem ok (b : β) : BreaksOnlyIf P (.ok b : Except Fault β) := fun _ h => by cases h

theorem refusal (pos : Position) (cause : Cause) :
    BreaksOnlyIf P (refusal pos cause : Except Fault β) := fun _ h => by cases h

theorem bind {x : Except Fault β} {f : β → Except Fault γ} (hx : BreaksOnlyIf P x)
    (hf : ∀ b, BreaksOnlyIf P (f b)) : BreaksOnlyIf P (x >>= f) := by
  intro why h
  cases x with
  | ok b => exact hf b why h
  | error fault => exact hx why (congrArg _ (Except.error.inj h))

theorem join {x y : Planned} (hx : BreaksOnlyIf P x) (hy : BreaksOnlyIf P y) :
    BreaksOnlyIf P (Planned.join x y) :=
  hx.bind fun _ => hy.bind fun _ => .ok _

theorem fork {x y : Planned} (hx : BreaksOnlyIf P x) (hy : BreaksOnlyIf P y) :
    BreaksOnlyIf P (Planned.fork x y) :=
  hx.bind fun _ => hy.bind fun _ => .ok _

/-- One level more may be refused. -/
theorem allowed {x : Except Fault β} (hx : BreaksOnlyIf P x) {s : Settings} {depth : Nat}
    {pos : Position} : BreaksOnlyIf P (s.allow depth pos >>= fun _ => x) := by
  refine BreaksOnlyIf.bind ?_ fun _ => hx
  unfold Settings.allow
  split
  · exact .refusal _ _
  · exact .ok _

theorem readable {l : Lexeme} (h : ∃ text, l = .ok text) : BreaksOnlyIf P (readable l) := by
  obtain ⟨text, rfl⟩ := h
  exact .ok text

theorem numberConstant {pos : Position} {text : String} :
    BreaksOnlyIf P (numberConstant pos text) := by
  unfold StackScript.numberConstant
  split
  · exact .refusal _ _
  · split
    · exact .ok _
    · exact .refusal _ _

theorem stringConstant {pos : Position} {text : String}
    (hP : Literal.string text = .error .overflow → P) :
    BreaksOnlyIf P (stringConstant pos text) := by
  unfold StackScript.stringConstant
  split
  · exact .ok _
  · exact .refusal _ _
  · exact .refusal _ _
  · next h => exact fun why hwhy => ⟨by cases hwhy; rfl, hP h⟩

theorem slotOf {scope : Scope α} {pos : Position} {name : String} :
    BreaksOnlyIf P (scope.slotOf pos name) := by
  unfold Scope.slotOf
  split
  · exact .ok _
  · split
    · exact .refusal _ _
    · exact .refusal _ _

theorem operationOf {pos : Position} {sign : String} : BreaksOnlyIf P (operationOf pos sign) := by
  unfold StackScript.operationOf
  split
  · exact .ok _
  · exact .refusal _ _

end BreaksOnlyIf

/-! ### Trees -/

/-- Nothing is missing in a tree, and a text of it that has an escape that is too large implies a
condition. -/
structure SyntaxTree.Tame (source : ByteArray) (P : Prop) (t : SyntaxTree) : Prop where
  whole : t.Whole source
  escapes : ∀ c, t.Holds c → ∀ text, c.text source = .ok text →
    Literal.string text = .error .overflow → P

section Trees

open SyntaxTree

variable {source : ByteArray} {P : Prop} {s : Settings} {t : SyntaxTree}

theorem SyntaxTree.Tame.holds (h : t.Tame source P) {c : SyntaxTree} (hc : t.Holds c) :
    c.Tame source P :=
  ⟨h.whole.holds hc, fun d hd => h.escapes d (hc.trans hd)⟩

theorem SyntaxTree.Tame.child (h : t.Tame source P) {c : SyntaxTree} (hc : c ∈ t.children) :
    c.Tame source P :=
  h.holds (.single hc)

theorem Expr.breaksOnlyIf (ht : t.Tame source P) (depth : Nat) (scope : Scope α) :
    BreaksOnlyIf P ((Expr.ofTree source t).plan s depth scope) := by
  induction t using SyntaxTree.induction_children generalizing depth with
  | h t ih =>
    obtain ⟨text, htext⟩ := ht.whole.complete.text
    -- Only a string uses this: it is the one node whose text is searched for escapes.
    have hescape := ht.escapes t .refl text htext
    obtain ⟨i, cs⟩ := t
    have hkind : (SyntaxTree.node i cs).kind = i.kind := rfl
    rw [Expr.ofTree]
    split
    · exact ((BreaksOnlyIf.readable ⟨text, htext⟩).bind fun _ =>
        BreaksOnlyIf.numberConstant.bind fun _ => .ok _).allowed
    · exact (BreaksOnlyIf.ok _).allowed
    · exact (BreaksOnlyIf.ok _).allowed
    · rw [htext]
      exact ((BreaksOnlyIf.stringConstant hescape).bind fun _ => .ok _).allowed
    · exact ((BreaksOnlyIf.readable ⟨text, htext⟩).bind fun _ =>
        BreaksOnlyIf.slotOf.bind fun _ => .ok _).allowed
    · next h =>
      obtain ⟨c, hc, hmem⟩ := ht.whole.exists_content (by simp [hkind, h])
      rw [Expr.ofFirst_eq, show (cs.filter SyntaxTree.isContent).head? = some c from hc]
      exact (ih c hmem (ht.child hmem) _).allowed
    · next h =>
      obtain ⟨l, hl, hlmem⟩ := ht.whole.exists_part "left" (by simp [hkind, h, partNames])
      obtain ⟨r, hr, hrmem⟩ := ht.whole.exists_part "right" (by simp [hkind, h, partNames])
      obtain ⟨o, ho, homem⟩ := ht.whole.exists_part "operator" (by simp [hkind, h, partNames])
      rw [Expr.ofField_eq, Expr.ofField_eq, fieldText, show cs.find? _ = some l from hl,
        show cs.find? _ = some r from hr, show cs.find? _ = some o from ho]
      refine ((ih l hlmem (ht.child hlmem) _).join
        ((ih r hrmem (ht.child hrmem) _).join ?_)).allowed
      exact (BreaksOnlyIf.readable (ht.child homem).whole.complete.text).bind fun _ =>
        BreaksOnlyIf.operationOf.bind fun _ => .ok _
    · exact .refusal _ _

/-! ### Patterns -/

theorem bindingPlan_breaksOnlyIf {value : Option Expr}
    (hvalue : ∀ e ∈ value, ∀ depth (σ : Scope α), BreaksOnlyIf P (e.plan s depth σ))
    (depth : Nat) (name : String) (scope : Scope α) :
    BreaksOnlyIf P (bindingPlan s depth value name scope) := by
  cases value with
  | none => exact .ok _
  | some e => exact (hvalue e rfl _ _).join (.ok _)

theorem Property.nameOf_breaksOnlyIf (ht : t.Whole source) :
    BreaksOnlyIf P (Property.ofTree source t).nameOf := by
  unfold Property.ofTree
  split
  · exact .readable ht.complete.text
  split
  · next h =>
    obtain ⟨key, hkey, hmem⟩ := ht.exists_part "key" (by simp [h, partNames])
    rw [show t.children.find? _ = some key from hkey]
    dsimp only [nameOf, PropertyKey.ofTree]
    split
    · exact .readable (ht.child hmem).complete.text
    split
    · exact .refusal _ _
    · exact .refusal _ _
  · exact .refusal _ _

theorem Property.breaksOnlyIf {value : Option Expr}
    (hvalue : ∀ e ∈ value, ∀ depth (σ : Scope α), BreaksOnlyIf P (e.plan s depth σ))
    {ts : List SyntaxTree} (hts : ∀ t ∈ ts, t.Whole source) (depth : Nat) (scope : Scope α) :
    BreaksOnlyIf P (Property.planAll s depth value scope (ts.map (Property.ofTree source))) := by
  induction ts generalizing scope with
  | nil => exact .ok _
  | cons t ts ih =>
    obtain ⟨ht, hts⟩ := List.forall_mem_cons.1 hts
    exact (nameOf_breaksOnlyIf ht).bind fun name =>
      (bindingPlan_breaksOnlyIf hvalue depth name scope).join (ih hts _)

theorem Pattern.planAll_breaksOnlyIf {value : Option Expr} {depth : Nat} {ts : List SyntaxTree}
    (hts : ∀ t ∈ ts, ∀ σ : Scope α,
      BreaksOnlyIf P ((Pattern.ofTree source t).plan s depth value σ)) (scope : Scope α) :
    BreaksOnlyIf P (Pattern.planAll s depth value scope (ts.map (Pattern.ofTree source))) := by
  induction ts generalizing scope with
  | nil => exact .ok _
  | cons t ts ih =>
    obtain ⟨ht, hts⟩ := List.forall_mem_cons.1 hts
    exact (ht scope).join (ih hts _)

theorem Pattern.breaksOnlyIf {value : Option Expr}
    (hvalue : ∀ e ∈ value, ∀ depth (σ : Scope α), BreaksOnlyIf P (e.plan s depth σ))
    (ht : t.Whole source) (depth : Nat) (scope : Scope α) :
    BreaksOnlyIf P ((Pattern.ofTree source t).plan s depth value scope) := by
  induction t using SyntaxTree.induction_children generalizing depth scope with
  | h t ih =>
    have htext := ht.complete.text
    obtain ⟨i, cs⟩ := t
    have hcontent : ∀ c ∈ cs.filter SyntaxTree.isContent, c ∈ cs := fun c hc =>
      List.mem_of_mem_filter hc
    rw [Pattern.ofTree]
    split
    · exact ((BreaksOnlyIf.readable htext).bind fun name =>
        bindingPlan_breaksOnlyIf hvalue (depth + 1) name scope).allowed
    · rw [Pattern.ofChildren_eq]
      refine (Pattern.planAll_breaksOnlyIf (fun c hc σ => ?_) scope).allowed
      exact ih c (hcontent c hc) (ht.child (hcontent c hc)) _ _
    · have hproperties : ∀ c ∈ cs.filter SyntaxTree.isContent, c.Whole source := fun c hc =>
        ht.child (hcontent c hc)
      exact (Property.breaksOnlyIf hvalue hproperties (depth + 1) scope).allowed
    · exact .refusal _ _

theorem Declarator.breaksOnlyIf {ts : List SyntaxTree} (hts : ∀ t ∈ ts, t.Tame source P)
    (hkind : ∀ t ∈ ts, t.kind = "variable_declarator") (depth : Nat) (scope : Scope α) :
    BreaksOnlyIf P (Declarator.planAll s depth scope (ts.map (Declarator.ofTree source))) := by
  induction ts generalizing scope with
  | nil => exact .ok _
  | cons t ts ih =>
    obtain ⟨ht, hts⟩ := List.forall_mem_cons.1 hts
    obtain ⟨hvariable, hkind⟩ := List.forall_mem_cons.1 hkind
    obtain ⟨p, hp, hmem⟩ := ht.whole.exists_part "name" (by simp [hvariable, partNames])
    have htarget : (Declarator.ofTree source t).target = Pattern.ofTree source p := by
      simp only [Declarator.ofTree, show t.children.find? _ = some p from hp]
    have hvalue : ∀ e ∈ (Declarator.ofTree source t).value, ∀ depth (σ : Scope α),
        BreaksOnlyIf P (e.plan s depth σ) := by
      intro e he depth σ
      obtain ⟨v, hv, rfl⟩ := Option.map_eq_some_iff.1 he
      exact Expr.breaksOnlyIf (ht.child (mem_children_of_part? hv)) depth σ
    rw [List.map_cons, planAll, htarget]
    exact (Pattern.breaksOnlyIf hvalue (ht.child hmem).whole depth scope).join (ih hts hkind _)

/-! ### Statements -/

theorem Stmt.planAll_breaksOnlyIf {depth : Nat} {ts : List SyntaxTree}
    (hts : ∀ t ∈ ts, ∀ σ : Scope α, BreaksOnlyIf P ((Stmt.ofTree source t).plan s depth σ))
    (scope : Scope α) :
    BreaksOnlyIf P (Stmt.planAll s depth scope (ts.map (Stmt.ofTree source))) := by
  induction ts generalizing scope with
  | nil => exact .ok _
  | cons t ts ih =>
    obtain ⟨ht, hts⟩ := List.forall_mem_cons.1 hts
    exact (ht scope).join (ih hts _)

theorem Stmt.breaksOnlyIf (ht : t.Tame source P) (depth : Nat) (scope : Scope α) :
    BreaksOnlyIf P ((Stmt.ofTree source t).plan s depth scope) := by
  induction t using SyntaxTree.induction_below generalizing depth scope with
  | h t ih =>
    obtain ⟨i, cs⟩ := t
    have hkind : (SyntaxTree.node i cs).kind = i.kind := rfl
    have hcontent : ∀ c ∈ cs.filter SyntaxTree.isContent, c ∈ cs := fun c hc =>
      List.mem_of_mem_filter hc
    rw [Stmt.ofTree]
    split
    · next h =>
      obtain ⟨c, hc, hmem⟩ := ht.whole.exists_content (by simp [hkind, h])
      rw [Expr.ofFirst_eq, show (cs.filter SyntaxTree.isContent).head? = some c from hc]
      exact (Expr.breaksOnlyIf (ht.child hmem) _ _).allowed
    · next h =>
      have hword := ht.whole.exists_declarationKind h
      have hdeclarators : ∀ c ∈ cs.filter fun c => c.info.named && c.kind == "variable_declarator",
          c.Tame source P := fun c hc => ht.child (List.mem_of_mem_filter hc)
      have hplan := Declarator.breaksOnlyIf (s := s) hdeclarators (by simp) (depth + 1) scope
      refine ((BreaksOnlyIf.readable hword).bind fun word => ?_).allowed
      dsimp only
      split
      · exact (BreaksOnlyIf.refusal _ _).bind fun _ => hplan
      · exact hplan
    · exact (BreaksOnlyIf.refusal _ _).allowed
    · exact (BreaksOnlyIf.refusal _ _).allowed
    · exact (BreaksOnlyIf.refusal _ _).allowed
    · exact (BreaksOnlyIf.refusal _ _).allowed
    · next h =>
      obtain ⟨c, hc, hcmem⟩ := ht.whole.exists_part "condition" (by simp [hkind, h, partNames])
      obtain ⟨b, hb, hbmem⟩ := ht.whole.exists_part "consequence" (by simp [hkind, h, partNames])
      have halternative : Stmt.ofAlternative? source cs = _ := ht.whole.ofAlternative?_children
      rw [Expr.ofField_eq, Stmt.ofField?_eq, halternative, show cs.find? _ = some c from hc,
        show cs.find? _ = some b from hb]
      have htest : BreaksOnlyIf P ((Expr.ofTree source c).plan s (depth + 1) scope) :=
        Expr.breaksOnlyIf (ht.child hcmem) _ _
      have hbody := ih b hbmem b .refl (ht.child hbmem) (depth + 1) scope
      cases ha : (SyntaxTree.node i cs).alternative? with
      | none => exact (htest.join (hbody.fork (.ok _))).allowed
      | some a =>
        -- It may stand in an `else` clause, one level below the children.
        obtain ⟨d, hd, hda⟩ := SyntaxTree.exists_holds_of_alternative? ha
        have helse := ih d hd a hda ((ht.child hd).holds hda) (depth + 1)
        exact (htest.join (hbody.fork (helse _))).allowed
    · exact (BreaksOnlyIf.ok _).allowed
    · rw [Stmt.ofChildren_eq]
      refine (Stmt.planAll_breaksOnlyIf (fun c hc σ => ?_) scope).allowed
      exact ih c (hcontent c hc) c .refl (ht.child (hcontent c hc)) _ _
    · exact .refusal _ _

/-! ### Scripts -/

theorem SyntaxTree.exists_holds_of_searchFault {ts : List SyntaxTree} {c : SyntaxTree}
    (h : searchFault ts = some c) : ∃ t ∈ ts, t.Holds c := by
  fun_induction searchFault ts with
  | case1 => cases h
  | case2 t waiting hfault =>
    obtain rfl := Option.some.inj h
    exact ⟨t, by simp, .refl⟩
  | case3 t waiting hfault ih =>
    obtain ⟨u, hu, hc⟩ := ih h
    rcases List.mem_append.1 hu with hu | hu
    · exact ⟨t, by simp, .head (List.mem_of_mem_filter hu) hc⟩
    · exact ⟨u, by simp [hu], hc⟩

/-- The node to blame for a fault stands in the tree. -/
theorem SyntaxTree.holds_culprit (t : SyntaxTree) : t.Holds t.culprit := by
  unfold culprit
  cases hfault : searchFault [t] with
  | none => exact .refl
  | some c =>
    obtain ⟨u, hu, hc⟩ := exists_holds_of_searchFault hfault
    rwa [List.mem_singleton.1 hu] at hc

/-- A tree with errors is refused for them, and only its texts are asked for. -/
theorem Script.breaksOnlyIf (htext : ∀ c, t.Holds c → ∃ text, c.text source = .ok text)
    (ht : t.info.hasError = false → t.Tame source P) (scope : Scope α) :
    BreaksOnlyIf P ((Script.ofTree source t).plan s scope) := by
  unfold Script.plan
  cases herror : t.info.hasError with
  | true =>
    obtain ⟨text, htext⟩ := htext _ t.holds_culprit
    have hdamage : (Script.ofTree source t).damage = some ⟨t.culprit.position, .ok text⟩ := by
      simp [Script.ofTree, damage?, herror, htext]
    rw [hdamage]
    exact BreaksOnlyIf.refusal _ _
  | false =>
    have hdamage : (Script.ofTree source t).damage = none := by
      simp [Script.ofTree, damage?, herror]
    rw [hdamage, stmts_ofTree]
    exact (BreaksOnlyIf.ok _).bind fun _ => Stmt.planAll_breaksOnlyIf (fun c hc σ =>
      Stmt.breaksOnlyIf ((ht herror).child (mem_children_of_mem_content hc)) 0 σ) scope

end Trees

/-! ### Parsers -/

/-- What a parser is trusted with.  The text of a node is part of the source, and nothing is missing
in a tree without errors. -/
structure Parser.Faithful (parse : Parser) : Prop where
  text : ∀ source c, (parse source).Holds c →
    ∃ text, c.text source.toUTF8 = .ok text ∧ text.toList <:+: source.toList
  whole : ∀ source, (parse source).info.hasError = false → (parse source).Whole source.toUTF8

/-- Only an escape that is too large keeps a source from being compiled or refused. -/
theorem Parser.Faithful.breaksOnlyIf {parse : Parser} (h : parse.Faithful) (source : String)
    (s : Settings) (scope : Scope α) :
    BreaksOnlyIf (HugeEscape source.toList) ((Script.ofSource parse source).plan s scope) := by
  refine Script.breaksOnlyIf (fun c hc => ?_) (fun herror => ⟨h.whole source herror, ?_⟩) scope
  · obtain ⟨text, htext, -⟩ := h.text source c hc
    exact ⟨text, htext⟩
  · intro c hc text htext hoverflow
    obtain ⟨text', htext', hinfix⟩ := h.text source c hc
    obtain rfl : text' = text := Except.ok.inj (htext'.symm.trans htext)
    exact (Literal.huge_of_string hoverflow).mono hinfix

theorem SyntaxTree.faithful_ofSource : Parser.Faithful SyntaxTree.ofSource where
  text source c hc := by
    obtain ⟨cs, hcs, htext⟩ := ((ofSource_sturdy source).holds hc).exists_text
    exact ⟨_, htext, by simpa using hcs⟩
  whole source _ := (ofSource_sturdy source).whole

/-! ### Sessions -/

theorem Script.plan_of_broken {script : Script} {s : Settings} {scope : Scope α} {why : Breakdown}
    (h : (script.compile s scope).result = .error (.broken why)) :
    script.plan s scope = .error (.broken why) := by
  cases hplan : script.plan s scope with
  | ok a =>
    rw [(compile_of_plan hplan).1] at h
    cases h
  | error f =>
    cases f with
    | refused e =>
      rw [(compile_of_refused hplan).1] at h
      cases h
    | broken why' =>
      rw [(compile_of_broken hplan).1] at h
      exact congrArg _ (Except.error.inj h)

/-- A session can rely on its parser and on its limit of nesting.  The limit is one that the stack of
the host allows, as deeper nesting may exhaust the stack before the limit is reached, and one that a
message can name. -/
structure SessionSettings.Dependable (setup : SessionSettings) : Prop where
  parse : setup.parse.Faithful
  depth : setup.compile.maxDepth ≤ Settings.standard.maxDepth
  spelled : Text.Spellable setup.compile.maxDepth

/-- **What an input of a session comes to**, after any inputs.  It is compiled, and the session keeps
its program; or it is refused, and the session is what it was; or it holds an escape for a number of
more than thirty-one bits, by which the session breaks down with the programs it had. -/
theorem Session.submit_breaks_only_by_hugeEscape (setup : SessionSettings)
    (hsetup : setup.Dependable) (inputs : List String) (source : String) :
    let s : Session α := (dialogue setup .start inputs).2
    (∃ p, (s.submit setup source).result = .ok p ∧
      (s.submit setup source).session.programs = s.programs ++ [p]) ∨
    (∃ e, (s.submit setup source).result = .error (.refused e) ∧
      (s.submit setup source).session = s) ∨
    ((s.submit setup source).result = .error (.broken .hugeEscape) ∧
      (s.submit setup source).session.programs = s.programs ∧ HugeEscape source.toList) := by
  intro s
  have hscope : s.scope.Level := level_dialogue setup inputs
  rcases s.submit_cases setup source with
    ⟨p, hp, -, hprograms⟩ | ⟨e, he, -, hs⟩ | ⟨why, hwhy, hprograms⟩
  · exact .inl ⟨p, hp, hprograms⟩
  · exact .inr (.inl ⟨e, he, hs hscope⟩)
  · have hplan := Script.plan_of_broken (s.result_submit setup source ▸ hwhy)
    obtain ⟨rfl, hescape⟩ := hsetup.parse.breaksOnlyIf source _ s.scope _ hplan
    exact .inr (.inr ⟨hwhy, hprograms, hescape⟩)

/-- A name that is not defined: the input is refused, and its own name is not defined either. -/
theorem Session.submit_unbound_refused :
    let setup : SessionSettings := ⟨.ofSource, .standard, true⟩
    let s : Session Unit := (dialogue setup .start ["let a = true"]).2
    setup.Dependable ∧ ∃ e, (s.submit setup "let a = b").result = .error (.refused e) ∧
      (s.submit setup "let a = b").session = s := by
  intro setup s
  have hsetup : setup.Dependable := ⟨SyntaxTree.faithful_ofSource, le_rfl, by decide⟩
  have hresult : (s.submit setup "let a = b").result = .error (.refused ⟨.unbound "b", ⟨1, 8⟩⟩) := by
    rw [result_submit]
    exact (Script.compile_of_refused (by with_unfolding_all rfl)).1
  refine ⟨hsetup, ?_⟩
  obtain ⟨p, hp, -⟩ | hrefused | ⟨hbroken, -⟩ :=
    submit_breaks_only_by_hugeEscape (α := Unit) setup hsetup ["let a = true"] "let a = b"
  · cases hresult.symm.trans hp
  · exact hrefused
  · cases hresult.symm.trans hbroken

/-- An escape for a number of thirty-two bits breaks a session down in its first input, and the name
that the input was to define stays. -/
theorem Session.submit_hugeEscape :
    let setup : SessionSettings := ⟨.ofSource, .standard, true⟩
    let reply := (start : Session Unit).submit setup "let a = '\\u\x7b80000000\x7d'"
    reply.result = .error (.broken .hugeEscape) ∧ reply.session.scope.slot? "a" = some 0 ∧
      (start : Session Unit).scope.slot? "a" = none := by
  refine ⟨?_, by decide +kernel, by decide +kernel⟩
  rw [result_submit]
  exact (Script.compile_of_broken (by with_unfolding_all rfl)).1

end StackScript
