import StackScript.Proofs.ScriptPlan
import StackScript.Proofs.TreeReading

/-!
# The supported language

Which trees are compiled, said without compiling them: start with the statements of the outermost
level, follow every construct to the constructs that it is made of, and look at each one by itself.

* `Reached` : a node together with what it is read as, how deep it stands, and the names bound
  before it;
* `Reached.parts` : the constructs that a construct leads to;
* `Reached.Supported` : a construct by itself is one of the language;
* `Script.exists_program_iff_supported` : a tree is compiled exactly when all constructs that are
  reached are supported.

The value of a declarator is reached once for every name of its pattern, right below it, and not at
all if the pattern has no names.  It may mention the names bound before the declarator, and of the
pattern's own names the first one.
-/

namespace StackScript

variable {α : Type}

/-- A node, and what it is read as.  Patterns and their properties come with the value that their
names are given. -/
inductive Construct where
  | statement (node : SyntaxTree)
  | pattern (node : SyntaxTree) (value : Option SyntaxTree)
  | property (node : SyntaxTree) (value : Option SyntaxTree)
  | expression (node : SyntaxTree)

/-- A construct where it is reached: its level, counted from one, and the names that an expression
there may mention besides those of the scope. -/
structure Reached where
  construct : Construct
  level : Nat
  visible : List String

namespace Reached

/-- The operands of an expression. -/
def operands (t : SyntaxTree) : List SyntaxTree :=
  match t.kind with
  | "parenthesized_expression" => t.content.head?.toList
  | "binary_expression" => (t.part? "left").toList ++ (t.part? "right").toList
  | _ => []

section Parts

variable (source : ByteArray)

/-- Statements one after the other.  The names of each are visible behind it. -/
def sequence (level : Nat) : List String → List SyntaxTree → List Reached
  | _, [] => []
  | visible, t :: ts =>
    ⟨.statement t, level, visible⟩ ::
      sequence level (visible ++ (Stmt.ofTree source t).names) ts

/-- Declarators one after the other.  The names of each are visible behind it, the first one also in
its own value. -/
def declarators (level : Nat) : List String → List SyntaxTree → List Reached
  | _, [] => []
  | visible, t :: ts =>
    let names := (Declarator.ofTree source t).target.names
    (t.part? "name").toList.map
        (fun p => ⟨.pattern p (t.part? "value"), level, visible ++ names.take 1⟩) ++
      declarators level (visible ++ names) ts

/-- The constructs that a construct is made of. -/
def parts : Reached → List Reached
  | ⟨.statement t, level, visible⟩ =>
    match t.kind with
    | "expression_statement" =>
      t.content.head?.toList.map (⟨.expression ·, level + 1, visible⟩)
    | "lexical_declaration" =>
      declarators source (level + 1) visible
        (t.children.filter fun c => c.info.named && c.kind == "variable_declarator")
    | "if_statement" =>
      let names := ((t.part? "consequence").map fun c => (Stmt.ofTree source c).names).getD []
      (t.part? "condition").toList.map (⟨.expression ·, level + 1, visible⟩) ++
        (t.part? "consequence").toList.map (⟨.statement ·, level + 1, visible⟩) ++
        t.alternative?.toList.map (⟨.statement ·, level + 1, visible ++ names⟩)
    | "statement_block" => sequence source (level + 1) visible t.content
    | _ => []
  | ⟨.pattern t value, level, visible⟩ =>
    match t.kind with
    | "identifier" => value.toList.map (⟨.expression ·, level + 1, visible⟩)
    | "array_pattern" => t.content.map (⟨.pattern · value, level + 1, visible⟩)
    | "object_pattern" => t.content.map (⟨.property · value, level, visible⟩)
    | _ => []
  | ⟨.property _ value, level, visible⟩ => value.toList.map (⟨.expression ·, level + 1, visible⟩)
  | ⟨.expression t, level, visible⟩ => (operands t).map (⟨.expression ·, level + 1, visible⟩)

/-- The constructs of the outermost level of a tree. -/
def outermost (root : SyntaxTree) : List Reached := sequence source 1 [] root.content

/-- A construct leads to another one, directly or through others. -/
def Reaches : Reached → Reached → Prop := Relation.ReflTransGen fun r q => q ∈ r.parts source

end Parts

/-- The signs of the supported operators. -/
def operatorSigns : List String := ["+", "-", "*", "/", "==="]

/-- A construct is one of the language, as far as it can be seen without looking at its parts. -/
def Supported (source : ByteArray) (limit : Int) (scope : Scope α) (r : Reached) : Prop :=
  r.level ≤ limit ∧
    match r.construct with
    | .statement t =>
      match t.kind with
      | "expression_statement" | "if_statement" | "empty_statement" | "statement_block" => True
      | "lexical_declaration" => declarationKind source t.children = .ok "let"
      | _ => False
    | .pattern t _ => t.kind ∈ ["identifier", "array_pattern", "object_pattern"]
    | .property t _ =>
      t.kind = "shorthand_property_identifier_pattern" ∨
        t.kind = "pair_pattern" ∧ ∃ key ∈ t.part? "key", key.kind = "property_identifier"
    | .expression t =>
      match t.kind with
      | "true" | "false" | "parenthesized_expression" => True
      | "number" => ∃ text, t.text source = .ok text ∧ Literal.isBigint text = false ∧
          (Literal.number? text).isSome
      | "string" => ∃ text value, t.text source = .ok text ∧ Literal.string text = .ok value
      | "binary_expression" => ∃ o ∈ t.part? "operator", ∃ sign ∈ operatorSigns,
          o.text source = .ok sign
      | "identifier" => ∃ name, t.text source = .ok name ∧
          (name ∈ r.visible ∨ (scope.slot? name).isSome)
      | _ => False

end Reached

/-- The parts that a node of some kind has to have. -/
def partNames : String → List String
  | "if_statement" => ["condition", "consequence"]
  | "variable_declarator" => ["name"]
  | "pair_pattern" => ["key"]
  | "binary_expression" => ["left", "right", "operator"]
  | _ => []

/-- A node has the children that reading it needs, and its bytes are a text. -/
structure SyntaxTree.Complete (source : ByteArray) (t : SyntaxTree) : Prop where
  text : ∃ text, t.text source = .ok text
  parts : ∀ name ∈ partNames t.kind, ∃ c, t.part? name = some c
  content : t.kind ∈ ["expression_statement", "parenthesized_expression", "else_clause"] →
    t.content ≠ []
  opening : t.kind = "lexical_declaration" → t.children ≠ []

/-- All nodes of a tree are complete. -/
def SyntaxTree.Whole (source : ByteArray) (t : SyntaxTree) : Prop :=
  ∀ c, t.Holds c → c.Complete source

namespace SyntaxTree

theorem complete_iff {source : ByteArray} {t : SyntaxTree} :
    t.Complete source ↔ (t.text source).toBool = true ∧
      (∀ name ∈ partNames t.kind, (t.part? name).isSome) ∧
      (t.kind ∈ ["expression_statement", "parenthesized_expression", "else_clause"] →
        t.content.isEmpty = false) ∧
      (t.kind = "lexical_declaration" → t.children.isEmpty = false) := by
  have htext : (t.text source).toBool = true ↔ ∃ text, t.text source = .ok text := by
    cases t.text source <;> simp [Except.toBool]
  simp only [htext, Option.isSome_iff_exists, List.isEmpty_eq_false_iff]
  exact ⟨fun ⟨h₁, h₂, h₃, h₄⟩ => ⟨h₁, h₂, h₃, h₄⟩, fun ⟨h₁, h₂, h₃, h₄⟩ => ⟨h₁, h₂, h₃, h₄⟩⟩

instance (source : ByteArray) (t : SyntaxTree) : Decidable (t.Complete source) :=
  decidable_of_iff' _ complete_iff

theorem whole_iff {source : ByteArray} {t : SyntaxTree} :
    t.Whole source ↔ t.Complete source ∧ ∀ c ∈ t.children, c.Whole source :=
  forall_holds_iff

mutual

/-- Whether a tree is whole can be computed. -/
def decidableWhole (source : ByteArray) : (t : SyntaxTree) → Decidable (t.Whole source)
  | .node i cs =>
    haveI := decidableWholeAll source cs
    decidable_of_iff' ((SyntaxTree.node i cs).Complete source ∧ ∀ c ∈ cs, c.Whole source) whole_iff

def decidableWholeAll (source : ByteArray) :
    (ts : List SyntaxTree) → Decidable (∀ t ∈ ts, t.Whole source)
  | [] => .isTrue (by simp)
  | t :: ts =>
    haveI := decidableWhole source t
    haveI := decidableWholeAll source ts
    decidable_of_iff' _ List.forall_mem_cons

end

instance (source : ByteArray) (t : SyntaxTree) : Decidable (t.Whole source) :=
  decidableWhole source t

end SyntaxTree

namespace SyntaxTree.Whole

variable {source : ByteArray} {t c : SyntaxTree}

theorem complete (h : t.Whole source) : t.Complete source := (whole_iff.1 h).1

theorem child (h : t.Whole source) (hc : c ∈ t.children) : c.Whole source :=
  (whole_iff.1 h).2 c hc

theorem holds (h : t.Whole source) (hc : t.Holds c) : c.Whole source :=
  fun d hd => h d (hc.trans hd)

theorem exists_content (h : t.Whole source)
    (hkind : t.kind ∈ ["expression_statement", "parenthesized_expression", "else_clause"]) :
    ∃ c, t.content.head? = some c ∧ c ∈ t.children := by
  cases hcontent : t.content with
  | nil => exact absurd hcontent (h.complete.content hkind)
  | cons c cs => exact ⟨c, rfl, mem_children_of_mem_content (by simp [hcontent])⟩

theorem exists_part (h : t.Whole source) (name : String) (hname : name ∈ partNames t.kind) :
    ∃ c, t.part? name = some c ∧ c ∈ t.children := by
  obtain ⟨c, hc⟩ := h.complete.parts name hname
  exact ⟨c, hc, mem_children_of_part? hc⟩

theorem ofAlternative?_children (h : t.Whole source) :
    Stmt.ofAlternative? source t.children = t.alternative?.map (Stmt.ofTree source) := by
  rw [Stmt.ofAlternative?_eq, alternative?]
  change (t.part? "alternative").map _ = _
  cases hc : t.part? "alternative" with
  | none => rfl
  | some c =>
    by_cases hkind : c.kind = "else_clause"
    · obtain ⟨d, hd, -⟩ := (h.child (mem_children_of_part? hc)).exists_content (by simp [hkind])
      simp [hkind, hd]
    · simp [hkind]

theorem exists_declarationKind (h : t.Whole source)
    (hkind : t.kind = "lexical_declaration") :
    ∃ word, declarationKind source t.children = .ok word := by
  have hsome : ((t.part? "kind").or t.children.head?).isSome := by
    have hopening := h.complete.opening hkind
    simp [Option.isSome_or, hopening]
  obtain ⟨c, hc⟩ := Option.isSome_iff_exists.1 hsome
  have hmem : c ∈ t.children := by
    rcases Option.or_eq_some_iff.1 hc with hc | ⟨-, hc⟩
    · exact mem_children_of_part? hc
    · exact List.mem_of_head? hc
  unfold declarationKind
  rw [show (t.children.find? _).or _ = some c from hc]
  exact (h.child hmem).complete.text

end SyntaxTree.Whole

theorem Script.stmts_ofTree (source : ByteArray) (root : SyntaxTree) :
    (Script.ofTree source root).stmts = root.content.map (Stmt.ofTree source) := by
  simp [stmts, Script.ofTree, SyntaxTree.content]

/-! ### Constructs with all that they lead to -/

namespace Reached

/-- A construct and all that it leads to are supported. -/
def Sound (source : ByteArray) (limit : Int) (scope : Scope α) (r : Reached) : Prop :=
  ∀ q, r.Reaches source q → q.Supported source limit scope

variable {source : ByteArray} {limit : Int} {scope : Scope α}

/-- A construct is sound by itself and through its parts. -/
theorem sound_iff {r : Reached} :
    r.Sound source limit scope ↔
      r.Supported source limit scope ∧ ∀ q ∈ r.parts source, q.Sound source limit scope := by
  constructor
  · intro h
    exact ⟨h r .refl, fun q hq q' hq' => h q' (.head hq hq')⟩
  · rintro ⟨hr, hparts⟩ q hq
    rcases Relation.ReflTransGen.cases_head hq with rfl | ⟨q', hq', hrest⟩
    · exact hr
    · exact hparts q' hq' q hrest

theorem mem_children_of_mem_operands {t c : SyntaxTree} (h : c ∈ operands t) :
    c ∈ t.children := by
  unfold operands at h
  split at h
  · have hc : c ∈ t.content := List.mem_of_head? (Option.mem_toList.1 h)
    exact SyntaxTree.mem_children_of_mem_content hc
  · rcases List.mem_append.1 h with h | h
    · exact SyntaxTree.mem_children_of_part? (Option.mem_toList.1 h)
    · exact SyntaxTree.mem_children_of_part? (Option.mem_toList.1 h)
  · cases h

namespace Sound

variable {t : SyntaxTree} {level level' : Nat} {visible visible' : List String}

/-- An expression that is sound at a level, and with some names visible at another level, is sound
at the first level with those names visible: the two conditions do not touch each other. -/
theorem exchange (h : (⟨.expression t, level, visible⟩ : Reached).Sound source limit scope)
    (h' : (⟨.expression t, level', visible'⟩ : Reached).Sound source limit scope) :
    (⟨.expression t, level, visible'⟩ : Reached).Sound source limit scope := by
  induction t using SyntaxTree.induction_children generalizing level level' with
  | h t ih =>
    obtain ⟨⟨hlevel, -⟩, hparts⟩ := sound_iff.1 h
    obtain ⟨⟨-, hlocal⟩, hparts'⟩ := sound_iff.1 h'
    refine sound_iff.2 ⟨⟨hlevel, hlocal⟩, ?_⟩
    simp only [parts, List.forall_mem_map] at hparts hparts' ⊢
    intro c hc
    exact ih c (mem_children_of_mem_operands hc) (hparts c hc) (hparts' c hc)

/-- An expression stays sound when more names are visible. -/
theorem mono (hsub : visible ⊆ visible')
    (h : (⟨.expression t, level, visible⟩ : Reached).Sound source limit scope) :
    (⟨.expression t, level, visible'⟩ : Reached).Sound source limit scope := by
  induction t using SyntaxTree.induction_children generalizing level with
  | h t ih =>
    obtain ⟨⟨hlevel, hlocal⟩, hparts⟩ := sound_iff.1 h
    refine sound_iff.2 ⟨⟨hlevel, ?_⟩, ?_⟩
    · dsimp only at hlocal ⊢
      split at hlocal <;> try trivial
      -- Of all expressions only an identifier looks at the names.
      obtain ⟨name, htext, hname⟩ := hlocal
      exact ⟨name, htext, hname.imp_left fun h => hsub h⟩
    · simp only [parts, List.forall_mem_map] at hparts ⊢
      intro c hc
      exact ih c (mem_children_of_mem_operands hc) (hparts c hc)

end Sound

end Reached

end StackScript
