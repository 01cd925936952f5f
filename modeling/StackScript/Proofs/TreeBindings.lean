import StackScript.Proofs.ScriptPlan
import StackScript.Proofs.TreeReading

/-!
# The names of a tree

Which names a tree binds, and in which order, is said here on the tree itself, without reading it as
a script: `SyntaxTree.declarations` lists the declarations of a statement, `SyntaxTree.binders` the
nodes that a pattern has its names from, and `SyntaxTree.bindings` puts them together.

* `Stmt.bindings` : the bindings of a statement;
* `Pattern.names_ofTree`, `Stmt.bindings_ofTree` : reading a tree keeps its names.
-/

namespace StackScript

/-- A name that a declaration binds. -/
structure Binding where
  name : String
  /-- The declaration gives the name a value. -/
  hasValue : Bool
deriving DecidableEq, Repr

/-! ### The bindings of a tree -/

namespace SyntaxTree

theorem sizeOf_lt_of_mem_children {t c : SyntaxTree} (h : c ∈ t.children) :
    sizeOf c < sizeOf t := by
  obtain ⟨i, cs⟩ := t
  have hlt := List.sizeOf_lt_of_mem (show c ∈ cs from h)
  simp only [node.sizeOf_spec]
  omega

theorem sizeOf_le_of_holds {t c : SyntaxTree} (h : t.Holds c) : sizeOf c ≤ sizeOf t := by
  induction h with
  | refl => exact Nat.le_refl _
  | tail _ hc ih =>
    have hlt := sizeOf_lt_of_mem_children hc
    omega

/-- The statements that a statement is made of, a condition's body before its alternative. -/
def substatements (t : SyntaxTree) : List SyntaxTree :=
  match t.kind with
  | "if_statement" => (t.part? "consequence").toList ++ t.alternative?.toList
  | "statement_block" => t.content
  | _ => []

theorem exists_holds_of_mem_substatements {t c : SyntaxTree} (h : c ∈ t.substatements) :
    ∃ d ∈ t.children, d.Holds c := by
  unfold substatements at h
  split at h
  · rcases List.mem_append.1 h with h | h
    · exact ⟨c, mem_children_of_part? (Option.mem_toList.1 h), .refl⟩
    · exact exists_holds_of_alternative? (Option.mem_toList.1 h)
  · exact ⟨c, mem_children_of_mem_content h, .refl⟩
  · cases h

/-- The declarations in a statement, as they come. -/
def declarations (t : SyntaxTree) : List SyntaxTree :=
  if t.kind = "lexical_declaration" then [t]
  else t.substatements.attach.flatMap fun ⟨c, _⟩ => c.declarations
termination_by sizeOf t
decreasing_by
  obtain ⟨d, hd, hc⟩ := exists_holds_of_mem_substatements (by assumption)
  have hlt := sizeOf_lt_of_mem_children hd
  have hle := sizeOf_le_of_holds hc
  omega

theorem declarations_eq (t : SyntaxTree) :
    t.declarations =
      if t.kind = "lexical_declaration" then [t] else t.substatements.flatMap declarations := by
  rw [declarations]
  simp

/-- The node that a property of an object pattern has its name from; for a pair that is the key. -/
def propertyBinder (t : SyntaxTree) : List SyntaxTree :=
  if t.kind = "shorthand_property_identifier_pattern" then [t]
  else if t.kind = "pair_pattern" then
    (t.part? "key").toList.filter fun key => key.kind == "property_identifier"
  else []

/-- The nodes that a pattern has its names from, from left to right. -/
def binders (t : SyntaxTree) : List SyntaxTree :=
  if t.kind = "identifier" then [t]
  else if t.kind = "array_pattern" then t.content.attach.flatMap fun ⟨c, _⟩ => c.binders
  else if t.kind = "object_pattern" then t.content.flatMap propertyBinder
  else []
termination_by sizeOf t
decreasing_by
  exact sizeOf_lt_of_mem_children (mem_children_of_mem_content (by assumption))

theorem binders_eq (t : SyntaxTree) :
    t.binders =
      if t.kind = "identifier" then [t]
      else if t.kind = "array_pattern" then t.content.flatMap binders
      else if t.kind = "object_pattern" then t.content.flatMap propertyBinder
      else [] := by
  rw [binders]
  simp

/-- The declarators of a declaration. -/
def declarators (t : SyntaxTree) : List SyntaxTree :=
  t.children.filter fun c => c.info.named && c.kind == "variable_declarator"

section Source

variable (source : ByteArray)

/-- The names of a pattern. -/
def boundNames (t : SyntaxTree) : List String :=
  t.binders.flatMap fun b => (b.text source).toOption.toList

/-- The names of a declarator. -/
def targetNames (t : SyntaxTree) : List String :=
  (t.part? "name").toList.flatMap fun p => p.boundNames source

/-- The names that the declarations in a statement bind. -/
def declaredNames (t : SyntaxTree) : List String :=
  t.declarations.flatMap fun d => d.declarators.flatMap (targetNames source)

/-- The bindings of a declarator: the names of its pattern, all with its value or all without. -/
def declaratorBindings (t : SyntaxTree) : List Binding :=
  (t.targetNames source).map (⟨·, (t.part? "value").isSome⟩)

/-- The bindings of a whole tree, in the order of its declarations. -/
def bindings (root : SyntaxTree) : List Binding :=
  (root.content.flatMap declarations).flatMap fun t =>
    t.declarators.flatMap fun d => d.declaratorBindings source

end Source

end SyntaxTree

/-! ### The bindings of a script -/

/-- The bindings of a declarator. -/
def Declarator.bindings (d : Declarator) : List Binding :=
  d.target.names.map (⟨·, d.value.isSome⟩)

mutual

/-- The bindings of a statement. -/
def Stmt.bindings : Stmt → List Binding
  | .lexical _ _ declarators => declarators.flatMap Declarator.bindings
  | .ifThen _ _ body => body.bindings
  | .ifElse _ _ body alternative => body.bindings ++ alternative.bindings
  | .block _ body => Stmt.bindingsAll body
  | .expression .. | .foreign .. | .empty _ | .unsupported .. | .broken _ => []

/-- The bindings of several statements. -/
def Stmt.bindingsAll : List Stmt → List Binding
  | [] => []
  | t :: ts => t.bindings ++ Stmt.bindingsAll ts

end

mutual

@[simp] theorem Stmt.map_name_bindings : (t : Stmt) → t.bindings.map Binding.name = t.names
  | .lexical .. => by
    simp [bindings, names, Declarator.bindings, List.map_flatMap, Function.comp_def]
  | .ifThen _ _ body => by rw [bindings, names, Stmt.map_name_bindings body]
  | .ifElse _ _ body alternative => by
    rw [bindings, names, List.map_append, Stmt.map_name_bindings body,
      Stmt.map_name_bindings alternative]
  | .block _ body => by rw [bindings, names, Stmt.map_name_bindingsAll body]
  | .expression .. | .foreign .. | .empty _ | .unsupported .. | .broken _ => rfl

@[simp] theorem Stmt.map_name_bindingsAll :
    (ts : List Stmt) → (Stmt.bindingsAll ts).map Binding.name = Stmt.namesAll ts
  | [] => rfl
  | t :: ts => by
    rw [bindingsAll, namesAll, List.map_append, Stmt.map_name_bindings t,
      Stmt.map_name_bindingsAll ts]

end

theorem Stmt.length_bindings (t : Stmt) : t.bindings.length = t.names.length := by
  rw [← Stmt.map_name_bindings, List.length_map]

theorem Stmt.bindingsAll_eq (ts : List Stmt) : Stmt.bindingsAll ts = ts.flatMap Stmt.bindings := by
  induction ts with
  | nil => rfl
  | cons t ts ih => rw [bindingsAll, ih, List.flatMap_cons]

/-! ### Reading bindings off a tree -/

section Reading

variable (source : ByteArray)

theorem Property.names_ofTree (t : SyntaxTree) :
    (Property.ofTree source t).names =
      t.propertyBinder.flatMap fun b => (b.text source).toOption.toList := by
  have hread (l : Lexeme) : (readable l).toOption.toList = l.toOption.toList := by cases l <;> rfl
  unfold Property.ofTree SyntaxTree.propertyBinder
  split
  · simp [names, nameOf, hread]
  split
  · cases hpart : t.part? "key" with
    | none =>
      rw [show t.children.find? _ = none from hpart]
      rfl
    | some key =>
      rw [show t.children.find? _ = some key from hpart]
      by_cases hkey : key.kind = "property_identifier"
      · simp [names, nameOf, PropertyKey.ofTree, PropertyKey.nameOf, hkey, hread]
      · simp only [PropertyKey.ofTree, hkey, if_false]
        split <;> simp [names, nameOf, PropertyKey.nameOf, hkey, refusal, Except.toOption]
  · simp [names, nameOf, refusal, Except.toOption]

theorem Pattern.namesAll_eq (ps : List Pattern) :
    Pattern.namesAll ps = ps.flatMap Pattern.names := by
  induction ps with
  | nil => rfl
  | cons p ps ih => rw [namesAll, ih, List.flatMap_cons]

theorem Pattern.names_ofTree (t : SyntaxTree) :
    (Pattern.ofTree source t).names = t.boundNames source := by
  induction t using SyntaxTree.induction_children with
  | h t ih =>
    obtain ⟨i, cs⟩ := t
    have hkind : (SyntaxTree.node i cs).kind = i.kind := rfl
    rw [SyntaxTree.boundNames, SyntaxTree.binders_eq, Pattern.ofTree]
    split
    · next h => simp [hkind, h, names]
    · next h =>
      have helements : ∀ c ∈ cs.filter SyntaxTree.isContent,
          (Pattern.ofTree source c).names = c.boundNames source := fun c hc =>
        ih c (List.mem_of_mem_filter hc)
      rw [names, Pattern.ofChildren_eq, namesAll_eq, List.flatMap_map, List.flatMap_congr helements]
      simp [hkind, h, List.flatMap_assoc]
      rfl
    · next h =>
      simp [hkind, h, names, List.flatMap_map, List.flatMap_assoc, Property.names_ofTree,
        SyntaxTree.content, SyntaxTree.children]
    · next h₁ h₂ h₃ =>
      rw [hkind, if_neg h₁, if_neg h₂, if_neg h₃]
      rfl

theorem Declarator.names_ofTree (t : SyntaxTree) :
    (Declarator.ofTree source t).target.names = t.targetNames source := by
  rw [SyntaxTree.targetNames]
  cases hname : t.part? "name" with
  | none =>
    simp only [Declarator.ofTree, show t.children.find? _ = none from hname]
    rfl
  | some p =>
    simp only [Declarator.ofTree, show t.children.find? _ = some p from hname]
    simp [Pattern.names_ofTree]

theorem Declarator.bindings_ofTree (t : SyntaxTree) :
    (Declarator.ofTree source t).bindings = t.declaratorBindings source := by
  have hvalue : (Declarator.ofTree source t).value.isSome = (t.part? "value").isSome := by
    simp [Declarator.ofTree, SyntaxTree.part?]
  rw [bindings, hvalue, Declarator.names_ofTree, SyntaxTree.declaratorBindings]

theorem Stmt.bindings_ofField? (name : String) (t : SyntaxTree) :
    ((Stmt.ofField? source name t.children).getD (.broken .noPart)).bindings =
      (t.part? name).toList.flatMap fun c => (Stmt.ofTree source c).bindings := by
  rw [Stmt.ofField?_eq]
  change Stmt.bindings (((t.part? name).map _).getD _) = _
  cases t.part? name with
  | none => rfl
  | some c => simp

theorem Stmt.bindings_ofAlternative? (t : SyntaxTree) :
    (Stmt.ofAlternative? source t.children).toList.flatMap Stmt.bindings =
      t.alternative?.toList.flatMap fun c => (Stmt.ofTree source c).bindings := by
  rw [Stmt.ofAlternative?_eq, SyntaxTree.alternative?]
  change ((t.part? "alternative").map _).toList.flatMap _ = _
  cases t.part? "alternative" with
  | none => rfl
  | some c =>
    by_cases hclause : c.kind = "else_clause"
    · -- A clause without content is read as a broken statement, which binds nothing.
      cases hcontent : c.content.head? <;> simp [hclause, hcontent, bindings]
    · simp [hclause]

theorem Stmt.bindings_ofTree (t : SyntaxTree) :
    (Stmt.ofTree source t).bindings =
      t.declarations.flatMap fun t =>
        t.declarators.flatMap fun d => d.declaratorBindings source := by
  induction t using SyntaxTree.induction_below with
  | h t ih =>
    have hparts : (t.substatements.flatMap fun c => (Stmt.ofTree source c).bindings) =
        (t.substatements.flatMap SyntaxTree.declarations).flatMap fun t =>
          t.declarators.flatMap fun d => d.declaratorBindings source := by
      rw [List.flatMap_assoc]
      refine List.flatMap_congr fun c hc => ?_
      obtain ⟨d, hd, hholds⟩ := SyntaxTree.exists_holds_of_mem_substatements hc
      exact ih d hd c hholds
    obtain ⟨i, cs⟩ := t
    have hkind : (SyntaxTree.node i cs).kind = i.kind := rfl
    rw [SyntaxTree.declarations_eq, Stmt.ofTree]
    split
    · next h => simp [hkind, h, bindings, SyntaxTree.substatements]
    · next h =>
      simp [hkind, h, bindings, SyntaxTree.declarators, StackScript.declarators,
        List.flatMap_map, Declarator.bindings_ofTree, SyntaxTree.children]
    · next h => simp [hkind, h, bindings, SyntaxTree.substatements]
    · next h => simp [hkind, h, bindings, SyntaxTree.substatements]
    · next h => simp [hkind, h, bindings, SyntaxTree.substatements]
    · next h => simp [hkind, h, bindings, SyntaxTree.substatements]
    · next h =>
      have hbody := Stmt.bindings_ofField? source "consequence" (.node i cs)
      have halternative := Stmt.bindings_ofAlternative? source (.node i cs)
      rw [if_neg (by simp [hkind, h]), ← hparts]
      simp only [SyntaxTree.substatements, hkind, h, List.flatMap_append, ← hbody, ← halternative]
      simp only [SyntaxTree.children]
      cases Stmt.ofAlternative? source cs <;> simp [bindings]
    · next h => simp [hkind, h, bindings, SyntaxTree.substatements]
    · next h =>
      rw [if_neg (by simp [hkind, h]), ← hparts, bindings, Stmt.ofChildren_eq, bindingsAll_eq,
        List.flatMap_map]
      simp [SyntaxTree.substatements, hkind, h, SyntaxTree.content, SyntaxTree.children]
    · next h₁ h₂ h₃ h₄ h₅ h₆ h₇ h₈ h₉ =>
      rw [hkind, if_neg h₂, SyntaxTree.substatements]
      split
      · next h => exact absurd h h₇
      · next h => exact absurd h h₉
      · rfl

theorem Stmt.names_ofTree (t : SyntaxTree) :
    (Stmt.ofTree source t).names = t.declaredNames source := by
  rw [← Stmt.map_name_bindings, Stmt.bindings_ofTree]
  simp [SyntaxTree.declaredNames, SyntaxTree.declaratorBindings, List.map_flatMap,
    Function.comp_def]

end Reading

end StackScript
