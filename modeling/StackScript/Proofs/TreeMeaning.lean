import StackScript.Proofs.Evaluation
import StackScript.Proofs.Supported
import StackScript.Proofs.TreeBindings

/-!
# The meaning of a tree

A tree can be evaluated as it stands, without reading it as a script: the kind of a node says what it
means, and its content and its parts say where its operands, its branches and its names are.

* `SyntaxTree.value` : the value of an expression;
* `SyntaxTree.effect` : what a statement does to the stack and the store;
* `SyntaxTree.meaning` : the effect of the statements of a tree, one after the other.

Where a node lacks what its kind asks for, or is of another kind, there is no meaning.  Reading a
tree keeps its meaning, for every tree: `Script.eval_ofTree`.
-/

namespace StackScript

variable {α V : Type} (m : Semantics V) (source : ByteArray)

namespace SyntaxTree

theorem sizeOf_content_lt (t : SyntaxTree) : sizeOf t.content < sizeOf t := by
  have hfilter (cs : List SyntaxTree) : sizeOf (cs.filter isContent) ≤ sizeOf cs := by
    induction cs with
    | nil => exact Nat.le_refl _
    | cons c cs ih =>
      rw [List.filter_cons]
      split <;> simp only [List.cons.sizeOf_spec] <;> omega
  obtain ⟨i, cs⟩ := t
  have hle : sizeOf (node i cs).content ≤ sizeOf cs := hfilter cs
  simp only [node.sizeOf_spec]
  omega

/-! ### Expressions -/

/-- The value of an expression. -/
def value (scope : Scope α) (store : Nat → V) (t : SyntaxTree) : Option V :=
  match t.kind with
  | "number" => do
    let x ← Literal.number? (← (t.text source).toOption)
    return m.constant (.number x)
  | "true" => some (m.constant (.boolean true))
  | "false" => some (m.constant (.boolean false))
  | "string" => do
    let s ← (Literal.string (← (t.text source).toOption)).toOption
    return m.constant (.string s)
  | "identifier" => do
    let slot ← scope.slot? (← (t.text source).toOption)
    return store slot
  | "parenthesized_expression" => do
    let ⟨inner, _⟩ ← t.content.head?.attach
    inner.value scope store
  | "binary_expression" => do
    let sign ← t.part? "operator"
    let f ← m.operator? (← (sign.text source).toOption)
    let ⟨left, _⟩ ← (t.part? "left").attach
    let v ← left.value scope store
    let ⟨right, _⟩ ← (t.part? "right").attach
    return f v (← right.value scope store)
  | _ => none
termination_by sizeOf t
decreasing_by
  · exact sizeOf_lt_of_mem_children (mem_children_of_mem_content (List.mem_of_head? (by assumption)))
  · exact sizeOf_lt_of_mem_children (mem_children_of_part? (by assumption))
  · exact sizeOf_lt_of_mem_children (mem_children_of_part? (by assumption))

/-! ### Statements -/

/-- A declaration starts with a word: its first child, if none is marked as the word. -/
def opensWith (t : SyntaxTree) (word : String) : Bool :=
  ((t.part? "kind").or t.children.head?).any fun c => (c.text source).toOption == some word

/-- The effect of declarators.  The value of each is computed anew for every name of its pattern,
and there the name itself is in scope already. -/
def declare : Scope α → List SyntaxTree → Memory V → Option (Memory V)
  | _, [], mem => some mem
  | scope, d :: ds, mem => do
    let names := d.targetNames source
    let mem ← evalBindings ((d.part? "value").map fun c σ store => c.value m source σ store) scope
      names mem
    declare (scope.defineAll names) ds mem

mutual

/-- The effect of a statement.  The names of a condition's body are in scope in its alternative. -/
def effect (scope : Scope α) (mem : Memory V) (t : SyntaxTree) : Option (Memory V) :=
  match t.kind with
  | "expression_statement" => do
    let expression ← t.content.head?
    return mem.push (← expression.value m source scope mem.store)
  | "lexical_declaration" =>
    if t.opensWith source "let" then declare m source scope t.declarators mem else none
  | "if_statement" => do
    let test ← t.part? "condition"
    if m.falsy (← test.value m source scope mem.store) then
      if (t.part? "alternative").isNone then return mem
      let ⟨alternative, _⟩ ← t.alternative?.attach
      let names := (t.part? "consequence").toList.flatMap (declaredNames source)
      alternative.effect (scope.defineAll names) mem
    else
      let ⟨body, _⟩ ← (t.part? "consequence").attach
      body.effect scope mem
  | "empty_statement" => some mem
  | "statement_block" => effectAll scope mem t.content
  | _ => none
termination_by sizeOf t
decreasing_by
  · obtain ⟨c, hc, hholds⟩ := exists_holds_of_alternative? (by assumption)
    exact Nat.lt_of_le_of_lt (sizeOf_le_of_holds hholds) (sizeOf_lt_of_mem_children hc)
  · exact sizeOf_lt_of_mem_children (mem_children_of_part? (by assumption))
  · exact sizeOf_content_lt t

/-- The effect of several statements.  Names stay in scope behind the statement that binds them. -/
def effectAll (scope : Scope α) (mem : Memory V) : List SyntaxTree → Option (Memory V)
  | [] => some mem
  | t :: ts => do
    effectAll (scope.defineAll (t.declaredNames source)) (← t.effect scope mem) ts
termination_by ts => sizeOf ts
decreasing_by all_goals (simp only [List.cons.sizeOf_spec]; omega)

end

/-- The effect of a whole tree. -/
def meaning (scope : Scope α) (mem : Memory V) (root : SyntaxTree) : Option (Memory V) :=
  effectAll m source scope mem root.content

end SyntaxTree

/-! ### Reading keeps the meaning -/

section Reading

variable {scope : Scope α} {store : Nat → V}

/-- What is read of a child that may be missing has the value of the child, if it is there. -/
theorem Expr.eval_getD {child : Option SyntaxTree} (why : Breakdown)
    (h : ∀ c ∈ child, (Expr.ofTree source c).eval m scope store = c.value m source scope store) :
    ((child.map (Expr.ofTree source)).getD (.broken why)).eval m scope store =
      child.bind fun c => c.value m source scope store := by
  cases child with
  | none => rfl
  | some c => exact h c rfl

theorem toOption_fieldText (name : String) (t : SyntaxTree) :
    (fieldText source name t.children).toOption =
      (t.part? name).bind fun c => (c.text source).toOption := by
  rw [fieldText, SyntaxTree.part?]
  cases t.children.find? (·.info.field == some name) <;> rfl

section Children

variable {t : SyntaxTree} (h : ∀ c ∈ t.children,
  (Expr.ofTree source c).eval m scope store = c.value m source scope store)
include h

theorem Expr.eval_ofFirst :
    (Expr.ofFirst source t.children).eval m scope store =
      t.content.head?.bind fun c => c.value m source scope store := by
  rw [Expr.ofFirst_eq]
  exact Expr.eval_getD m source _ fun c hc =>
    h c (SyntaxTree.mem_children_of_mem_content (List.mem_of_head? hc))

theorem Expr.eval_ofField (name : String) :
    (Expr.ofField source name t.children).eval m scope store =
      (t.part? name).bind fun c => c.value m source scope store := by
  rw [Expr.ofField_eq]
  exact Expr.eval_getD m source _ fun c hc => h c (SyntaxTree.mem_children_of_part? hc)

end Children

/-- **Reading keeps the values of expressions.** -/
theorem Expr.eval_ofTree (t : SyntaxTree) :
    (Expr.ofTree source t).eval m scope store = t.value m source scope store := by
  induction t using SyntaxTree.induction_children with
  | h t ih =>
    have hfirst := Expr.eval_ofFirst m source ih
    have hleft := Expr.eval_ofField m source ih "left"
    have hright := Expr.eval_ofField m source ih "right"
    have hsign := toOption_fieldText source "operator" t
    obtain ⟨i, cs⟩ := t
    have hkind : (SyntaxTree.node i cs).kind = i.kind := rfl
    simp only [SyntaxTree.children] at hfirst hleft hright hsign
    rw [Expr.ofTree, SyntaxTree.value]
    split
    · next h => simp [hkind, h, eval]
    · next h => simp [hkind, h, eval]
    · next h => simp [hkind, h, eval]
    · next h => simp [hkind, h, eval]
    · next h => simp [hkind, h, eval]
    · next h => simp [hkind, h, eval, hfirst]
    · next h => simp [hkind, h, eval, hleft, hright, hsign, Option.bind_assoc]
    · simp [hkind, eval]

theorem Declarator.evalAll_ofTree (scope : Scope α) (ts : List SyntaxTree) (mem : Memory V) :
    Declarator.evalAll m scope (ts.map (Declarator.ofTree source)) mem =
      SyntaxTree.declare m source scope ts mem := by
  have hvalue (t : SyntaxTree) :
      ((Declarator.ofTree source t).value.map fun e σ store => e.eval m σ store) =
        (t.part? "value").map fun c (σ : Scope α) store => c.value m source σ store := by
    simp only [Declarator.ofTree, Option.map_map, Function.comp_def, Expr.eval_ofTree]
    rfl
  induction ts generalizing scope mem with
  | nil => rfl
  | cons t ts ih =>
    rw [List.map_cons, evalAll, SyntaxTree.declare, hvalue, Declarator.names_ofTree]
    simp only [ih]

theorem toOption_declarationKind (t : SyntaxTree) (word : String) :
    (declarationKind source t.children).toOption = some word ↔
      t.opensWith source word = true := by
  rw [declarationKind, SyntaxTree.opensWith, SyntaxTree.part?]
  cases (t.children.find? (·.info.field == some "kind")).or t.children.head? with
  | none => simp [Except.toOption]
  | some c => simp

theorem Stmt.evalAll_ofTree {ts : List SyntaxTree}
    (h : ∀ c ∈ ts, ∀ (scope : Scope α) (mem : Memory V),
      (Stmt.ofTree source c).eval m scope mem = c.effect m source scope mem)
    (scope : Scope α) (mem : Memory V) :
    Stmt.evalAll m scope mem (ts.map (Stmt.ofTree source)) =
      SyntaxTree.effectAll m source scope mem ts := by
  induction ts generalizing scope mem with
  | nil => simp [evalAll, SyntaxTree.effectAll]
  | cons t ts ih =>
    rw [List.forall_mem_cons] at h
    rw [List.map_cons, evalAll, SyntaxTree.effectAll, h.1, Stmt.names_ofTree]
    simp only [ih h.2]

section Branches

variable {t : SyntaxTree}

/-- What is read of a branch that may be missing has the effect of the branch, if it is there. -/
theorem Stmt.eval_getD {child : Option SyntaxTree} (why : Breakdown) {scope : Scope α}
    {mem : Memory V}
    (h : ∀ c ∈ child, (Stmt.ofTree source c).eval m scope mem = c.effect m source scope mem) :
    ((child.map (Stmt.ofTree source)).getD (.broken why)).eval m scope mem =
      child.bind fun c => c.effect m source scope mem := by
  cases child with
  | none => simp [eval]
  | some c => exact h c rfl

theorem Stmt.names_ofField? (name : String) :
    ((Stmt.ofField? source name t.children).getD (.broken .noPart)).names =
      (t.part? name).toList.flatMap (SyntaxTree.declaredNames source) := by
  rw [← Stmt.map_name_bindings, Stmt.bindings_ofField?, List.map_flatMap]
  simp [Stmt.names_ofTree]

variable (h : ∀ c ∈ t.children, ∀ d, c.Holds d → ∀ (scope : Scope α) (mem : Memory V),
  (Stmt.ofTree source d).eval m scope mem = d.effect m source scope mem)
include h

theorem Stmt.eval_ofField? (name : String) (scope : Scope α) (mem : Memory V) :
    ((Stmt.ofField? source name t.children).getD (.broken .noPart)).eval m scope mem =
      (t.part? name).bind fun c => c.effect m source scope mem := by
  rw [Stmt.ofField?_eq]
  exact Stmt.eval_getD m source _ fun c hc =>
    h c (SyntaxTree.mem_children_of_part? hc) c .refl scope mem

theorem Stmt.eval_ofAlternative? {c : SyntaxTree} (hc : t.part? "alternative" = some c) :
    ∃ alternative, Stmt.ofAlternative? source t.children = some alternative ∧
      ∀ (scope : Scope α) (mem : Memory V), alternative.eval m scope mem =
        t.alternative?.bind fun d => d.effect m source scope mem := by
  rw [Stmt.ofAlternative?_eq, show t.children.find? _ = some c from hc]
  refine ⟨_, rfl, fun scope mem => ?_⟩
  rw [SyntaxTree.alternative?, hc, Option.bind_some]
  dsimp only
  split
  · exact Stmt.eval_getD m source _ fun d hd => h c (SyntaxTree.mem_children_of_part? hc) d
      (.single (SyntaxTree.mem_children_of_mem_content (List.mem_of_head? hd))) scope mem
  · exact h c (SyntaxTree.mem_children_of_part? hc) c .refl scope mem

/-- Reading keeps the effect of a condition. -/
theorem Stmt.eval_condition (hkind : t.kind = "if_statement") (scope : Scope α) (mem : Memory V) :
    (Stmt.ofTree source t).eval m scope mem = t.effect m source scope mem := by
  have hvalue : ∀ c ∈ t.children, (Expr.ofTree source c).eval m scope mem.store = _ := fun c _ =>
    Expr.eval_ofTree m source c
  have htest := Expr.eval_ofField m source hvalue "condition"
  have hbody := Stmt.eval_ofField? m source h "consequence" scope mem
  have hnames := Stmt.names_ofField? source (t := t) "consequence"
  have hsome := fun c => Stmt.eval_ofAlternative? m source h (c := c)
  rw [SyntaxTree.effect]
  obtain ⟨i, cs⟩ := t
  have hi : i.kind = "if_statement" := hkind
  simp only [SyntaxTree.children] at htest hbody hnames hsome
  rw [Stmt.ofTree]
  simp only [hkind, hi]
  cases hpart : (SyntaxTree.node i cs).part? "alternative" with
  | none =>
    have hnone : Stmt.ofAlternative? source cs = none := by
      rw [Stmt.ofAlternative?_eq, show cs.find? _ = none from hpart]
      rfl
    simp [hnone, eval, htest, hbody, Option.bind_assoc]
  | some c =>
    obtain ⟨alternative, halternative, heval⟩ := hsome c hpart
    simp [halternative, eval, htest, hbody, hnames, heval, Option.bind_assoc]

end Branches

/-- **Reading keeps the effect of statements.** -/
theorem Stmt.eval_ofTree (t : SyntaxTree) (scope : Scope α) (mem : Memory V) :
    (Stmt.ofTree source t).eval m scope mem = t.effect m source scope mem := by
  induction t using SyntaxTree.induction_below generalizing scope mem with
  | h t ih =>
    have hvalue : ∀ c ∈ t.children, (Expr.ofTree source c).eval m scope mem.store = _ := fun c _ =>
      Expr.eval_ofTree m source c
    have hfirst := Expr.eval_ofFirst m source hvalue
    have hword := toOption_declarationKind source t "let"
    have hchild : ∀ c ∈ t.content, ∀ (scope : Scope α) mem,
        (Stmt.ofTree source c).eval m scope mem = c.effect m source scope mem := fun c hc =>
      ih c (SyntaxTree.mem_children_of_mem_content hc) c .refl
    have hcontent : Stmt.evalAll m scope mem (Stmt.ofChildren source t.children) =
        SyntaxTree.effectAll m source scope mem t.content := by
      rw [Stmt.ofChildren_eq]
      exact Stmt.evalAll_ofTree m source hchild scope mem
    have hdeclare : Declarator.evalAll m scope (declarators source t.children) mem = _ :=
      Declarator.evalAll_ofTree m source scope t.declarators mem
    -- The alternative of a condition may stand one level below the children.
    by_cases hif : t.kind = "if_statement"
    · exact Stmt.eval_condition m source ih hif scope mem
    obtain ⟨i, cs⟩ := t
    have hkind : (SyntaxTree.node i cs).kind = i.kind := rfl
    simp only [SyntaxTree.children] at hfirst hword hcontent hdeclare
    rw [Stmt.ofTree, SyntaxTree.effect]
    split
    · next h => simp [hkind, h, eval, hfirst, Option.bind_assoc]
    · next h => simp [hkind, h, eval, hword, hdeclare]
    · next h => simp [hkind, h, eval]
    · next h => simp [hkind, h, eval]
    · next h => simp [hkind, h, eval]
    · next h => simp [hkind, h, eval]
    · next h => exact absurd h hif
    · next h => simp [hkind, h, eval]
    · next h => simp [hkind, h, eval, hcontent]
    · simp [hkind, eval]

/-- **Reading keeps the meaning of a tree.** -/
theorem Script.eval_ofTree (root : SyntaxTree) (scope : Scope α) (mem : Memory V) :
    (Script.ofTree source root).eval m scope mem = root.meaning m source scope mem := by
  rw [Script.eval, Script.stmts_ofTree, SyntaxTree.meaning]
  exact Stmt.evalAll_ofTree m source (fun c _ => Stmt.eval_ofTree m source c) scope mem

end Reading

end StackScript
