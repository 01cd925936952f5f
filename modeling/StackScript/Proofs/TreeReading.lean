import Mathlib.Data.List.Basic
import Mathlib.Logic.Relation
import StackScript.Script

/-!
# Reading trees

A tree is read as statements, patterns and expressions by functions that look for the right child as
they go.  This file says what they find in terms of two lookups, the nodes with content below a node
and its parts, and gives the induction over trees that goes with them.

* `SyntaxTree.content`, `SyntaxTree.part?` : the lookups;
* `SyntaxTree.Holds`, `SyntaxTree.preorder` : the nodes that stand in a tree, and their order;
* `Expr.ofFirst_eq`, `Expr.ofField_eq`, `Pattern.ofChildren_eq`, `Stmt.ofChildren_eq`, … : what is
  read of the children of a node.
-/

namespace StackScript

namespace SyntaxTree

/-- The nodes right below that stand for part of the script. -/
def content (t : SyntaxTree) : List SyntaxTree := t.children.filter isContent

/-- The first child that plays a part. -/
def part? (t : SyntaxTree) (name : String) : Option SyntaxTree :=
  t.children.find? (·.info.field == some name)

/-- What stands behind `else`: the statement inside the clause, or the node itself where there is no
clause around it. -/
def alternative? (t : SyntaxTree) : Option SyntaxTree :=
  (t.part? "alternative").bind fun c => if c.kind = "else_clause" then c.content.head? else some c

/-- A node stands in a tree, at its root or anywhere below. -/
def Holds : SyntaxTree → SyntaxTree → Prop := Relation.ReflTransGen fun t c => c ∈ t.children

/-- What holds of all nodes of a tree holds of its root and of all nodes of the trees below. -/
theorem forall_holds_iff {P : SyntaxTree → Prop} {t : SyntaxTree} :
    (∀ c, t.Holds c → P c) ↔ P t ∧ ∀ c ∈ t.children, ∀ d, c.Holds d → P d := by
  constructor
  · intro h
    exact ⟨h t .refl, fun c hc d hd => h d (.head hc hd)⟩
  · rintro ⟨ht, hchildren⟩ c hc
    rcases Relation.ReflTransGen.cases_head hc with rfl | ⟨d, hd, hrest⟩
    · exact ht
    · exact hchildren d hd c hrest

theorem mem_children_of_mem_content {t c : SyntaxTree} (h : c ∈ t.content) : c ∈ t.children :=
  (List.mem_filter.1 h).1

theorem mem_children_of_part? {t c : SyntaxTree} {name : String} (h : t.part? name = some c) :
    c ∈ t.children :=
  List.mem_of_find?_eq_some h

/-- What stands behind `else` is a child or stands in one. -/
theorem exists_holds_of_alternative? {t d : SyntaxTree} (h : t.alternative? = some d) :
    ∃ c ∈ t.children, c.Holds d := by
  obtain ⟨c, hc, hd⟩ := Option.bind_eq_some_iff.1 h
  refine ⟨c, mem_children_of_part? hc, ?_⟩
  split at hd
  · exact .single (mem_children_of_mem_content (List.mem_of_head? hd))
  · exact Option.some.inj hd ▸ .refl

mutual

/-- **Induction over trees**: what holds of a node whenever it holds of its children holds of every
node. -/
theorem induction_children {P : SyntaxTree → Prop}
    (h : ∀ t, (∀ c ∈ t.children, P c) → P t) : ∀ t, P t
  | .node i cs => h (.node i cs) (induction_list h cs)

theorem induction_list {P : SyntaxTree → Prop} (h : ∀ t, (∀ c ∈ t.children, P c) → P t) :
    ∀ cs : List SyntaxTree, ∀ c ∈ cs, P c
  | [] => by simp
  | t :: ts => List.forall_mem_cons.2 ⟨induction_children h t, induction_list h ts⟩

end

/-- Induction over trees where what stands anywhere below a node is known. -/
theorem induction_below {P : SyntaxTree → Prop}
    (h : ∀ t, (∀ c ∈ t.children, ∀ d, c.Holds d → P d) → P t) (t : SyntaxTree) : P t := by
  have hall : ∀ c, t.Holds c → P c := by
    induction t using induction_children with
    | h t ih =>
      intro c hc
      rcases Relation.ReflTransGen.cases_head hc with rfl | ⟨d, hd, hrest⟩
      · exact h t ih
      · exact ih d hd c hrest
  exact hall t .refl

/-! ### Document order -/

mutual

/-- The nodes of a tree in document order. -/
def preorder : SyntaxTree → List SyntaxTree
  | node i cs => node i cs :: preorderAll cs

/-- The nodes of several trees in document order. -/
def preorderAll : List SyntaxTree → List SyntaxTree
  | [] => []
  | c :: cs => preorder c ++ preorderAll cs

end

theorem preorderAll_eq (cs : List SyntaxTree) : preorderAll cs = cs.flatMap preorder := by
  induction cs with
  | nil => rfl
  | cons c cs ih => rw [preorderAll, ih, List.flatMap_cons]

theorem preorder_eq (t : SyntaxTree) : t.preorder = t :: t.children.flatMap preorder := by
  cases t with
  | node i cs => rw [preorder, preorderAll_eq]; rfl

theorem mem_preorder {t d : SyntaxTree} : d ∈ t.preorder ↔ t.Holds d := by
  induction t using induction_children with
  | h t ih =>
    rw [preorder_eq, List.mem_cons, List.mem_flatMap]
    constructor
    · rintro (rfl | ⟨c, hc, hd⟩)
      · exact .refl
      · exact .head hc ((ih c hc).1 hd)
    · intro hd
      rcases Relation.ReflTransGen.cases_head hd with rfl | ⟨c, hc, hrest⟩
      · exact .inl rfl
      · exact .inr ⟨c, hc, (ih c hc).2 hrest⟩

end SyntaxTree

variable (source : ByteArray)

theorem Expr.ofFirst_eq (cs : List SyntaxTree) :
    Expr.ofFirst source cs =
      ((cs.filter SyntaxTree.isContent).head?.map (Expr.ofTree source)).getD
        (.broken .noChild) := by
  induction cs with
  | nil => rfl
  | cons c cs ih =>
    rw [Expr.ofFirst, List.filter_cons]
    split
    · rfl
    · exact ih

theorem Expr.ofField_eq (name : String) (cs : List SyntaxTree) :
    Expr.ofField source name cs =
      ((cs.find? (·.info.field == some name)).map (Expr.ofTree source)).getD (.broken .noPart) := by
  induction cs with
  | nil => rfl
  | cons c cs ih =>
    rw [Expr.ofField, List.find?_cons]
    split
    · next h => rw [h]; rfl
    · next h => rw [Bool.not_eq_true] at h; rw [h]; exact ih

theorem Pattern.ofChildren_eq (cs : List SyntaxTree) :
    Pattern.ofChildren source cs =
      (cs.filter SyntaxTree.isContent).map (Pattern.ofTree source) := by
  induction cs with
  | nil => rfl
  | cons c cs ih =>
    rw [Pattern.ofChildren, List.filter_cons]
    split
    · rw [List.map_cons, ih]
    · exact ih

theorem Stmt.ofChildren_eq (cs : List SyntaxTree) :
    Stmt.ofChildren source cs = (cs.filter SyntaxTree.isContent).map (Stmt.ofTree source) := by
  induction cs with
  | nil => simp [Stmt.ofChildren]
  | cons c cs ih =>
    rw [Stmt.ofChildren, List.filter_cons]
    split
    · rw [List.map_cons, ih]
    · exact ih

theorem Stmt.ofFirst_eq (cs : List SyntaxTree) :
    Stmt.ofFirst source cs =
      ((cs.filter SyntaxTree.isContent).head?.map (Stmt.ofTree source)).getD
        (.broken .noChild) := by
  induction cs with
  | nil => simp [Stmt.ofFirst]
  | cons c cs ih =>
    rw [Stmt.ofFirst, List.filter_cons]
    split
    · rfl
    · exact ih

theorem Stmt.ofField?_eq (name : String) (cs : List SyntaxTree) :
    Stmt.ofField? source name cs =
      (cs.find? (·.info.field == some name)).map (Stmt.ofTree source) := by
  induction cs with
  | nil => simp [Stmt.ofField?]
  | cons c cs ih =>
    rw [Stmt.ofField?, List.find?_cons]
    split
    · next h => rw [h]; rfl
    · next h => rw [Bool.not_eq_true] at h; rw [h]; exact ih

theorem Stmt.ofAlternative?_eq (cs : List SyntaxTree) :
    Stmt.ofAlternative? source cs =
      (cs.find? (·.info.field == some "alternative")).map fun c =>
        if c.kind = "else_clause" then
          (c.content.head?.map (Stmt.ofTree source)).getD (.broken .noChild)
        else Stmt.ofTree source c := by
  induction cs with
  | nil => simp [Stmt.ofAlternative?]
  | cons c cs ih =>
    obtain ⟨i, ds⟩ := c
    rw [Stmt.ofAlternative?, List.find?_cons]
    split
    · next h =>
      simp only [SyntaxTree.info, h, Stmt.ofFirst_eq]
      rfl
    · next h =>
      rw [Bool.not_eq_true] at h
      simp only [SyntaxTree.info, h]
      exact ih

end StackScript
