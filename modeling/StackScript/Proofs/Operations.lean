import Mathlib.Data.List.Perm.Basic
import StackScript.Proofs.FreshSlots

/-!
# The operations of a script

Which operations a script is compiled to can be said without offsets, constants and slots: each
construct adds a few of its own to those of its parts (`Stmt.opcodes`), and a plan has exactly
these, in this order (`Script.opcodes_of_plan`).

On the tree the same operations are found node by node.  `SyntaxTree.statements` and
`SyntaxTree.subexpressions` list what is reached from a node, and every node has operations of its
own: a statement those of `SyntaxTree.steps`, an expression at most one (`SyntaxTree.opcode?`).  The
value of a declarator is computed once for each name of its pattern.  `Script.opcodes_ofTree` puts
them together, in another order than that of the code.
-/

namespace StackScript

variable {α : Type}

/-! ### Operations of a plan -/

/-- The operations of a plan, in the order of its code. -/
def Plan.opcodes : Plan → List Opcode
  | skip => []
  | halt => [.halt]
  | push _ => [.const]
  | load _ => [.loadContext]
  | store _ => [.setContext]
  | operate op => [op.instruction.opcode]
  | andThen a b => a.opcodes ++ b.opcodes
  | branch a b => .jumpIfFalse :: (a.opcodes ++ .jump :: b.opcodes)

theorem Plan.map_opcode_code (a : Plan) (offset : Nat) (cs : List Constant) :
    (a.code offset cs).map Instruction.opcode = a.opcodes := by
  induction a generalizing offset cs with
  | skip | halt | push _ | load _ | store _ | operate _ => rfl
  | andThen a b iha ihb => rw [code, List.map_append, iha, ihb, opcodes]
  | branch a b iha ihb =>
    rw [code_branch]
    simp only [List.map_append, iha, ihb]
    rfl

/-! ### Operations of a script -/

/-- The operation of the sign between two expressions, if it has one. -/
def signOpcode? (sign : Lexeme) : Option Opcode :=
  (sign.toOption.bind Operation.ofSign?).map fun op => op.instruction.opcode

/-- The operations of an expression. -/
def Expr.opcodes : Expr → List Opcode
  | .number .. | .boolean .. | .string .. => [.const]
  | .identifier .. => [.loadContext]
  | .parenthesized _ inner => inner.opcodes
  | .binary _ left right sign => left.opcodes ++ right.opcodes ++ (signOpcode? sign).toList
  | .unsupported .. | .broken _ => []

/-- The operations that give names a value, if there is one.  It is computed for each of them. -/
def bindingOpcodes (value : Option Expr) (names : List String) : List Opcode :=
  names.flatMap fun _ => value.toList.flatMap fun e => e.opcodes ++ [.setContext]

/-- The operations of a declarator. -/
def Declarator.opcodes (d : Declarator) : List Opcode := bindingOpcodes d.value d.target.names

mutual

/-- The operations of a statement; an empty one may halt. -/
def Stmt.opcodes (halts : Bool) : Stmt → List Opcode
  | .expression _ value => value.opcodes
  | .lexical _ _ declarators => declarators.flatMap Declarator.opcodes
  | .ifThen _ test body => test.opcodes ++ .jumpIfFalse :: (body.opcodes halts ++ [.jump])
  | .ifElse _ test body alternative =>
    test.opcodes ++ .jumpIfFalse :: (body.opcodes halts ++ .jump :: alternative.opcodes halts)
  | .empty _ => if halts then [.halt] else []
  | .block _ body => Stmt.opcodesAll halts body
  | .foreign .. | .unsupported .. | .broken _ => []

/-- The operations of several statements. -/
def Stmt.opcodesAll (halts : Bool) : List Stmt → List Opcode
  | [] => []
  | t :: ts => t.opcodes halts ++ Stmt.opcodesAll halts ts

end

theorem Stmt.opcodesAll_eq (halts : Bool) (ts : List Stmt) :
    Stmt.opcodesAll halts ts = ts.flatMap (Stmt.opcodes halts) := by
  induction ts with
  | nil => rfl
  | cons t ts ih => rw [opcodesAll, ih, List.flatMap_cons]

section Plans

variable {scope : Scope α} {a : Plan}

theorem Expr.Plans.opcodes_eq {e : Expr} (h : e.Plans scope a) : a.opcodes = e.opcodes := by
  induction h with
  | number | boolean | string | identifier => rfl
  | parenthesized _ ih => exact ih
  | binary _ _ hop ihl ihr =>
    simp [Plan.opcodes, opcodes, ihl, ihr, signOpcode?, Except.toOption, hop]

theorem Plan.Binds.opcodes_eq {value : Option Expr} {names : List String}
    (h : a.Binds value scope names) : a.opcodes = bindingOpcodes value names := by
  induction h with
  | nothing | declare => rfl
  | assign he => simp [opcodes, he.opcodes_eq, bindingOpcodes]
  | andThen _ _ iha ihb => simp [opcodes, iha, ihb, bindingOpcodes]

theorem Declarator.PlansAll.opcodes_eq {ds : List Declarator}
    (h : Declarator.PlansAll scope ds a) : a.opcodes = ds.flatMap Declarator.opcodes := by
  induction h with
  | nil => rfl
  | cons hd _ ih => rw [Plan.opcodes, hd.opcodes_eq, ih, List.flatMap_cons, Declarator.opcodes]

variable {halts : Bool}

mutual

theorem Stmt.Plans.opcodes_eq {scope : Scope α} {t : Stmt} {a : Plan}
    (h : Stmt.Plans halts scope t a) : a.opcodes = t.opcodes halts := by
  cases h with
  | expression h => exact h.opcodes_eq
  | lexical h => exact h.opcodes_eq
  | ifThen ht hb => simp [Plan.opcodes, ht.opcodes_eq, hb.opcodes_eq, Stmt.opcodes]
  | ifElse ht hb hc =>
    simp [Plan.opcodes, ht.opcodes_eq, hb.opcodes_eq, hc.opcodes_eq, Stmt.opcodes]
  | empty => cases halts <;> rfl
  | block h => exact h.opcodes_eq

theorem Stmt.PlansAll.opcodes_eq {scope : Scope α} {ts : List Stmt} {a : Plan}
    (h : Stmt.PlansAll halts scope ts a) : a.opcodes = Stmt.opcodesAll halts ts := by
  cases h with
  | nil => rfl
  | cons ht hts => rw [Plan.opcodes, ht.opcodes_eq, hts.opcodes_eq, Stmt.opcodesAll]

end

/-- **A plan has the operations of its script**, in their order. -/
theorem Script.opcodes_of_plan {s : Settings} {script : Script} (h : script.plan s scope = .ok a) :
    a.opcodes = Stmt.opcodesAll s.emptyHalts script.stmts :=
  (Script.plansAll_of_plan h).opcodes_eq

end Plans

/-! ### What is reached in a tree -/

namespace SyntaxTree

/-- The statements that are reached from a statement, itself first. -/
def statements (t : SyntaxTree) : List SyntaxTree :=
  t :: t.substatements.attach.flatMap fun ⟨c, _⟩ => c.statements
termination_by sizeOf t
decreasing_by
  obtain ⟨d, hd, hc⟩ := exists_holds_of_mem_substatements (by assumption)
  have hlt := sizeOf_lt_of_mem_children hd
  have hle := sizeOf_le_of_holds hc
  omega

theorem statements_eq (t : SyntaxTree) :
    t.statements = t :: t.substatements.flatMap statements := by
  rw [statements]
  simp

/-- The expressions that are reached from an expression, itself first. -/
def subexpressions (t : SyntaxTree) : List SyntaxTree :=
  t :: (Reached.operands t).attach.flatMap fun ⟨c, _⟩ => c.subexpressions
termination_by sizeOf t
decreasing_by
  exact sizeOf_lt_of_mem_children (Reached.mem_children_of_mem_operands (by assumption))

theorem subexpressions_eq (t : SyntaxTree) :
    t.subexpressions = t :: (Reached.operands t).flatMap subexpressions := by
  rw [subexpressions]
  simp

/-- A declaration is a statement without statements in it. -/
theorem declarations_eq_filter (t : SyntaxTree) :
    t.declarations = t.statements.filter fun c => c.kind == "lexical_declaration" := by
  induction t using induction_below with
  | h t ih =>
    rw [declarations_eq, statements_eq]
    by_cases h : t.kind = "lexical_declaration"
    · have hnone : t.substatements = [] := by simp [substatements, h]
      simp [h, hnone]
    · have hbelow : ∀ c ∈ t.substatements, c.declarations =
          c.statements.filter fun c => c.kind == "lexical_declaration" := by
        intro c hc
        obtain ⟨d, hd, hholds⟩ := exists_holds_of_mem_substatements hc
        exact ih d hd c hholds
      simp [h, List.flatMap_congr hbelow, List.filter_flatMap]

/-- Literals of the language. -/
def isLiteral (t : SyntaxTree) : Bool :=
  ["number", "true", "false", "string"].contains t.kind

section Source

variable (source : ByteArray)

/-- The values that a declarator gives to its names: the same node for each of them. -/
def givenValues (t : SyntaxTree) : List SyntaxTree :=
  (t.declaratorBindings source).flatMap fun _ => (t.part? "value").toList

/-- The expressions that a statement is made of.  A value counts once for each name that it is
given to. -/
def values (t : SyntaxTree) : List SyntaxTree :=
  match t.kind with
  | "expression_statement" => t.content.head?.toList
  | "if_statement" => (t.part? "condition").toList
  | "lexical_declaration" => t.declarators.flatMap (givenValues source)
  | _ => []

/-- The operations of a statement besides those of its expressions. -/
def steps (halts : Bool) (t : SyntaxTree) : List Opcode :=
  match t.kind with
  | "if_statement" => [.jumpIfFalse, .jump]
  | "empty_statement" => if halts then [.halt] else []
  | "lexical_declaration" =>
    (t.declarators.flatMap (givenValues source)).map fun _ => .setContext
  | _ => []

/-- The operation of an expression besides those of its operands. -/
def opcode? (t : SyntaxTree) : Option Opcode :=
  if t.isLiteral then some .const
  else if t.kind = "identifier" then some .loadContext
  else if t.kind = "binary_expression" then
    signOpcode? (fieldText source "operator" t.children)
  else none

/-- All statements that are reached in a tree. -/
def allStatements (root : SyntaxTree) : List SyntaxTree := root.content.flatMap statements

/-- All expressions that are reached in a tree. -/
def allExpressions (root : SyntaxTree) : List SyntaxTree :=
  (root.allStatements.flatMap (values source)).flatMap subexpressions

end Source

end SyntaxTree

/-! ### Reading operations off a tree -/

section Reading

variable (source : ByteArray)

/-- What is read of a child that may be missing has its operations, if it is there. -/
theorem Expr.opcodes_getD (child : Option SyntaxTree) (why : Breakdown) :
    ((child.map (Expr.ofTree source)).getD (.broken why)).opcodes =
      child.toList.flatMap fun c => (Expr.ofTree source c).opcodes := by
  cases child with
  | none => rfl
  | some c => simp

theorem Expr.opcodes_ofFirst (t : SyntaxTree) :
    (Expr.ofFirst source t.children).opcodes =
      t.content.head?.toList.flatMap fun c => (Expr.ofTree source c).opcodes := by
  rw [Expr.ofFirst_eq, Expr.opcodes_getD]
  rfl

theorem Expr.opcodes_ofField (name : String) (t : SyntaxTree) :
    (Expr.ofField source name t.children).opcodes =
      (t.part? name).toList.flatMap fun c => (Expr.ofTree source c).opcodes := by
  rw [Expr.ofField_eq, Expr.opcodes_getD]
  rfl

/-- The operations of an expression are its own and those of its operands. -/
theorem Expr.opcodes_ofTree_eq (t : SyntaxTree) :
    (Expr.ofTree source t).opcodes =
      (Reached.operands t).flatMap (fun c => (Expr.ofTree source c).opcodes) ++
        (t.opcode? source).toList := by
  have hfirst := Expr.opcodes_ofFirst source t
  have hleft := Expr.opcodes_ofField source "left" t
  have hright := Expr.opcodes_ofField source "right" t
  obtain ⟨i, cs⟩ := t
  have hkind : (SyntaxTree.node i cs).kind = i.kind := rfl
  simp only [SyntaxTree.children] at hfirst hleft hright
  rw [Expr.ofTree]
  split
  · next h => simp [Reached.operands, SyntaxTree.opcode?, SyntaxTree.isLiteral, hkind, h, opcodes]
  · next h => simp [Reached.operands, SyntaxTree.opcode?, SyntaxTree.isLiteral, hkind, h, opcodes]
  · next h => simp [Reached.operands, SyntaxTree.opcode?, SyntaxTree.isLiteral, hkind, h, opcodes]
  · next h => simp [Reached.operands, SyntaxTree.opcode?, SyntaxTree.isLiteral, hkind, h, opcodes]
  · next h => simp [Reached.operands, SyntaxTree.opcode?, SyntaxTree.isLiteral, hkind, h, opcodes]
  · next h =>
    simp [Reached.operands, SyntaxTree.opcode?, SyntaxTree.isLiteral, hkind, h, opcodes, hfirst]
  · next h =>
    simp [Reached.operands, SyntaxTree.opcode?, SyntaxTree.isLiteral, hkind, h, opcodes, hleft,
      hright, SyntaxTree.children]
  · next h₁ h₂ h₃ h₄ h₅ _ h₇ =>
    have hliteral : (SyntaxTree.node i cs).isLiteral = false := by
      simpa [SyntaxTree.isLiteral, hkind] using ⟨h₁, h₂, h₃, h₄⟩
    simp [Reached.operands, hkind, opcodes, SyntaxTree.opcode?, hliteral, if_neg h₅, if_neg h₇]

/-- The operations of an expression are those of the expressions that are reached from it. -/
theorem Expr.opcodes_ofTree (t : SyntaxTree) :
    (Expr.ofTree source t).opcodes.Perm
      (t.subexpressions.filterMap (SyntaxTree.opcode? source)) := by
  induction t using SyntaxTree.induction_children with
  | h t ih =>
    rw [Expr.opcodes_ofTree_eq, SyntaxTree.subexpressions_eq, ← List.singleton_append,
      List.filterMap_append, List.filterMap_flatMap]
    have hown : [t].filterMap (SyntaxTree.opcode? source) = (t.opcode? source).toList := by
      cases h : t.opcode? source <;> simp [h]
    rw [hown]
    -- In the code an operation stands behind its operands, in the list it stands before them.
    refine List.perm_append_comm.trans (.append_left _ (.flatMap_left _ fun c hc => ?_))
    exact ih c (Reached.mem_children_of_mem_operands hc)

theorem Declarator.opcodes_ofTree (t : SyntaxTree) :
    (Declarator.ofTree source t).opcodes.Perm
      ((t.givenValues source).map (fun _ => .setContext) ++
        (t.givenValues source).flatMap fun c => (Expr.ofTree source c).opcodes) := by
  have hnames : (Declarator.ofTree source t).target.names =
      (t.declaratorBindings source).map Binding.name := by
    rw [← Declarator.bindings_ofTree, Declarator.bindings]
    simp [Function.comp_def]
  have hvalue : (Declarator.ofTree source t).value =
      (t.part? "value").map (Expr.ofTree source) := rfl
  have hopcodes : (Declarator.ofTree source t).opcodes =
      (t.givenValues source).flatMap fun c => (Expr.ofTree source c).opcodes ++ [.setContext] := by
    rw [opcodes, bindingOpcodes, hnames, hvalue, List.flatMap_map, SyntaxTree.givenValues,
      List.flatMap_assoc]
    cases t.part? "value" with
    | none => simp
    | some c => simp
  rw [hopcodes]
  refine (List.flatMap_append_perm _ _ _).symm.trans ?_
  rw [← List.map_eq_flatMap]
  exact List.perm_append_comm

theorem Stmt.opcodes_ofField? (halts : Bool) (name : String) (t : SyntaxTree) :
    ((Stmt.ofField? source name t.children).getD (.broken .noPart)).opcodes halts =
      (t.part? name).toList.flatMap fun c => (Stmt.ofTree source c).opcodes halts := by
  rw [Stmt.ofField?_eq]
  change Stmt.opcodes halts (((t.part? name).map _).getD _) = _
  cases t.part? name with
  | none => rfl
  | some c => simp

theorem Stmt.opcodes_ofAlternative? (halts : Bool) (t : SyntaxTree) :
    (Stmt.ofAlternative? source t.children).toList.flatMap (Stmt.opcodes halts) =
      t.alternative?.toList.flatMap fun c => (Stmt.ofTree source c).opcodes halts := by
  rw [Stmt.ofAlternative?_eq, SyntaxTree.alternative?]
  change ((t.part? "alternative").map _).toList.flatMap _ = _
  cases t.part? "alternative" with
  | none => rfl
  | some c =>
    by_cases hclause : c.kind = "else_clause"
    · cases hcontent : c.content.head? <;> simp [hclause, hcontent, opcodes]
    · simp [hclause]

/-- The operations of a statement are its own, those of its expressions and those of the statements
in it. -/
theorem Stmt.opcodes_ofTree_perm (halts : Bool) (t : SyntaxTree) :
    ((Stmt.ofTree source t).opcodes halts).Perm
      (t.steps source halts ++
        (t.values source).flatMap (fun c => (Expr.ofTree source c).opcodes) ++
        t.substatements.flatMap fun c => (Stmt.ofTree source c).opcodes halts) := by
  have hfirst := Expr.opcodes_ofFirst source t
  have htest := Expr.opcodes_ofField source "condition" t
  have hbody := Stmt.opcodes_ofField? source halts "consequence" t
  have halternative := Stmt.opcodes_ofAlternative? source halts t
  obtain ⟨i, cs⟩ := t
  have hkind : (SyntaxTree.node i cs).kind = i.kind := rfl
  simp only [SyntaxTree.children] at hfirst htest hbody halternative
  rw [Stmt.ofTree]
  split
  · next h =>
    simp [SyntaxTree.steps, SyntaxTree.substatements, SyntaxTree.values, hkind, h, opcodes, hfirst]
  · next h =>
    have hnone : (SyntaxTree.node i cs).substatements = [] := by
      simp [SyntaxTree.substatements, hkind, h]
    simp only [SyntaxTree.steps, SyntaxTree.values, hkind, h, opcodes, hnone, List.flatMap_nil,
      List.append_nil, List.map_flatMap, List.flatMap_assoc]
    have hdeclarators : (declarators source cs).flatMap Declarator.opcodes =
        (SyntaxTree.node i cs).declarators.flatMap
          fun d => (Declarator.ofTree source d).opcodes := by
      simp [declarators, SyntaxTree.declarators, SyntaxTree.children, List.flatMap_map]
    rw [hdeclarators]
    refine List.Perm.trans ?_ (List.flatMap_append_perm _ _ _).symm
    exact .flatMap_left _ fun d _ => Declarator.opcodes_ofTree source d
  · next h =>
    simp [SyntaxTree.steps, SyntaxTree.substatements, SyntaxTree.values, hkind, h, opcodes]
  · next h =>
    simp [SyntaxTree.steps, SyntaxTree.substatements, SyntaxTree.values, hkind, h, opcodes]
  · next h =>
    simp [SyntaxTree.steps, SyntaxTree.substatements, SyntaxTree.values, hkind, h, opcodes]
  · next h =>
    simp [SyntaxTree.steps, SyntaxTree.substatements, SyntaxTree.values, hkind, h, opcodes]
  · next h =>
    -- The two jumps stand between the parts in the code, and before all of them in the list.
    simp only [SyntaxTree.steps, SyntaxTree.substatements, SyntaxTree.values, hkind, h,
      List.flatMap_append, ← htest, ← hbody, ← halternative]
    refine List.perm_iff_count.2 fun op => ?_
    cases Stmt.ofAlternative? source cs with
    | none =>
      simp only [opcodes, List.count_append, List.count_cons, List.count_nil, Option.toList_none,
        List.flatMap_nil]
      omega
    | some alternative =>
      simp only [opcodes, List.count_append, List.count_cons, List.count_nil, Option.toList_some,
        List.flatMap_singleton]
      omega
  · next h =>
    simp [SyntaxTree.steps, SyntaxTree.substatements, SyntaxTree.values, hkind, h, opcodes]
  · next h =>
    simp [SyntaxTree.steps, SyntaxTree.substatements, SyntaxTree.values, hkind, h, opcodes,
      opcodesAll_eq, Stmt.ofChildren_eq, List.flatMap_map, SyntaxTree.content, SyntaxTree.children]
  · next h₁ h₂ h₃ h₄ h₅ h₆ h₇ h₈ h₉ =>
    simp [SyntaxTree.steps, SyntaxTree.substatements, SyntaxTree.values, hkind, opcodes]

/-- The operations of a statement are those of the statements that are reached from it and of their
expressions. -/
theorem Stmt.opcodes_ofTree (halts : Bool) (t : SyntaxTree) :
    ((Stmt.ofTree source t).opcodes halts).Perm
      (t.statements.flatMap fun c => c.steps source halts ++
        (c.values source).flatMap fun e => (Expr.ofTree source e).opcodes) := by
  induction t using SyntaxTree.induction_below with
  | h t ih =>
    rw [SyntaxTree.statements_eq, List.flatMap_cons, List.flatMap_assoc]
    refine (Stmt.opcodes_ofTree_perm source halts t).trans (.append_left _ ?_)
    refine .flatMap_left _ fun c hc => ?_
    obtain ⟨d, hd, hholds⟩ := SyntaxTree.exists_holds_of_mem_substatements hc
    exact ih d hd c hholds

/-- **The operations of a script are found in its tree**: those of the statements that are reached,
and at most one for each expression that is reached. -/
theorem Script.opcodes_ofTree (halts : Bool) (root : SyntaxTree) :
    (Stmt.opcodesAll halts (Script.ofTree source root).stmts).Perm
      (root.allStatements.flatMap (SyntaxTree.steps source halts) ++
        (root.allExpressions source).filterMap (SyntaxTree.opcode? source)) := by
  have hexpressions : (root.allStatements.flatMap fun t =>
      (t.values source).flatMap fun e => (Expr.ofTree source e).opcodes).Perm
        ((root.allExpressions source).filterMap (SyntaxTree.opcode? source)) := by
    rw [← List.flatMap_assoc, SyntaxTree.allExpressions, List.filterMap_flatMap]
    exact .flatMap_left _ fun e _ => Expr.opcodes_ofTree source e
  rw [stmts_ofTree, Stmt.opcodesAll_eq, List.flatMap_map]
  refine List.Perm.trans (.flatMap_left _ fun t _ => Stmt.opcodes_ofTree source halts t) ?_
  rw [← List.flatMap_assoc]
  exact (List.flatMap_append_perm _ _ _).symm.trans (.append_left _ hexpressions)

end Reading

end StackScript
