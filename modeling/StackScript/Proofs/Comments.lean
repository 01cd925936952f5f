import StackScript.Proofs.ScriptPlan
import StackScript.Proofs.TreeReading

/-!
# Comments

Comments may stand between any two tokens, so a tree can have them anywhere below its root.  A tree
is read without looking at them: nodes are found by the part they play, by their kind or as content,
and comments play no part, have no kind that is looked for and are no content.

* `SyntaxTree.uncommented` : the tree without its comments;
* `SyntaxTree.PlainComments` : the trees of which comments say nothing;
* `SyntaxTree.filter_children_uncommented` : children that are looked for are the same ones;
* `Stmt.ofTree_uncommented`, `SyntaxTree.searchFault_uncommented` : hence what is read is the same;
* `Script.comments_are_transparent` : hence what is compiled is.
-/

namespace StackScript

variable {α β : Type}

namespace SyntaxTree

mutual

/-- The tree without the comments below its root, and what is below them. -/
def uncommented : SyntaxTree → SyntaxTree
  | node i cs => node i (uncommentedAll cs)

/-- The trees that are not comments, without comments. -/
def uncommentedAll : List SyntaxTree → List SyntaxTree
  | [] => []
  | t :: ts => if t.isComment then uncommentedAll ts else t.uncommented :: uncommentedAll ts

end

/-- Comments below the node play no part in it and are not marked as faulty, and if it is a
declaration then the word that opens it is marked. -/
structure PlainNode (t : SyntaxTree) : Prop where
  comments : ∀ c ∈ t.children, c.isComment = true → c.info.field = none ∧ c.isSuspect = false
  opening : t.kind = "lexical_declaration" → (t.part? "kind").isSome = true

/-- Trees of which comments say nothing. -/
def PlainComments (t : SyntaxTree) : Prop := ∀ c, t.Holds c → c.PlainNode

theorem PlainComments.node {t : SyntaxTree} (h : t.PlainComments) : t.PlainNode := h t .refl

theorem PlainComments.holds {t c : SyntaxTree} (h : t.PlainComments) (hc : t.Holds c) :
    c.PlainComments :=
  fun d hd => h d (hc.trans hd)

theorem PlainComments.child {t c : SyntaxTree} (h : t.PlainComments) (hc : c ∈ t.children) :
    c.PlainComments :=
  h.holds (.single hc)

theorem plainNode_iff {t : SyntaxTree} :
    t.PlainNode ↔
      (∀ c ∈ t.children, c.isComment = true → c.info.field = none ∧ c.isSuspect = false) ∧
        (t.kind = "lexical_declaration" → (t.part? "kind").isSome = true) :=
  ⟨fun ⟨h₁, h₂⟩ => ⟨h₁, h₂⟩, fun ⟨h₁, h₂⟩ => ⟨h₁, h₂⟩⟩

theorem plainComments_node {i : NodeInfo} {cs : List SyntaxTree} :
    (node i cs).PlainComments ↔ (node i cs).PlainNode ∧ ∀ c ∈ cs, c.PlainComments :=
  forall_holds_iff

/-! ### Lookups -/

@[simp] theorem info_uncommented (t : SyntaxTree) : t.uncommented.info = t.info := by
  cases t
  rfl

@[simp] theorem kind_uncommented (t : SyntaxTree) : t.uncommented.kind = t.kind := by
  simp [kind]

@[simp] theorem isComment_uncommented (t : SyntaxTree) :
    t.uncommented.isComment = t.isComment := by
  simp [isComment]

@[simp] theorem position_uncommented (t : SyntaxTree) : t.uncommented.position = t.position := by
  simp [position]

@[simp] theorem text_uncommented (source : ByteArray) (t : SyntaxTree) :
    t.uncommented.text source = t.text source := by
  simp [text]

theorem uncommentedAll_eq (ts : List SyntaxTree) :
    uncommentedAll ts = (ts.filter (!·.isComment)).map uncommented := by
  induction ts with
  | nil => rfl
  | cons t ts ih => cases h : t.isComment <;> simp [uncommentedAll, h, ih]

theorem children_uncommented (t : SyntaxTree) :
    t.uncommented.children = (t.children.filter (!·.isComment)).map uncommented := by
  cases t with
  | node i cs => exact uncommentedAll_eq cs

/-- No comment is left below the root. -/
theorem isComment_eq_false_of_mem_uncommented {t c : SyntaxTree}
    (hc : c ∈ t.uncommented.children) : c.isComment = false := by
  rw [children_uncommented] at hc
  obtain ⟨d, hd, rfl⟩ := List.mem_map.1 hc
  simpa using (List.mem_filter.1 hd).2

/-- What stands in a tree without comments is a node of the tree without comments. -/
theorem exists_of_holds_uncommented {t c : SyntaxTree} (h : t.uncommented.Holds c) :
    ∃ d, t.Holds d ∧ c = d.uncommented := by
  induction h with
  | refl => exact ⟨t, .refl, rfl⟩
  | tail _ hc ih =>
    obtain ⟨d, hd, rfl⟩ := ih
    rw [children_uncommented] at hc
    obtain ⟨e, he, rfl⟩ := List.mem_map.1 hc
    exact ⟨e, hd.tail (List.mem_filter.1 he).1, rfl⟩

/-- **Children that are looked for** by what they say themselves are the same ones without comments,
as long as no comment is among them. -/
theorem filter_children_uncommented {t : SyntaxTree} {p : SyntaxTree → Bool}
    (hp : ∀ c, p c.uncommented = p c)
    (hcomment : ∀ c ∈ t.children, c.isComment = true → p c = false) :
    t.uncommented.children.filter p = (t.children.filter p).map uncommented := by
  rw [children_uncommented, List.filter_map, List.filter_filter]
  congr 1
  refine List.filter_congr fun c hc => ?_
  rw [Function.comp_apply, hp]
  cases h : c.isComment with
  | false => simp
  | true => simp [hcomment c hc h]

theorem content_uncommented (t : SyntaxTree) :
    t.uncommented.content = t.content.map uncommented :=
  filter_children_uncommented (fun c => by simp [isContent]) fun c _ h => by simp [isContent, h]

theorem part?_uncommented {t : SyntaxTree} (h : t.PlainNode) (name : String) :
    t.uncommented.part? name = (t.part? name).map uncommented := by
  unfold part?
  rw [← List.head?_filter, ← List.head?_filter, ← List.head?_map]
  congr 1
  refine filter_children_uncommented (fun c => by simp) fun c hc hcomment => ?_
  simp [(h.comments c hc hcomment).1]

/-! ### Reading nodes

What is read of a node is read of its content and of its parts, so it is enough that the same is
read of each of them. -/

section Reading

variable {t : SyntaxTree} {f : SyntaxTree → β}

theorem map_content_uncommented (hf : ∀ c ∈ t.children, f c.uncommented = f c) :
    t.uncommented.content.map f = t.content.map f := by
  rw [content_uncommented, List.map_map]
  exact List.map_congr_left fun c hc => hf c (mem_children_of_mem_content hc)

theorem map_part?_uncommented (h : t.PlainNode) (name : String)
    (hf : ∀ c ∈ t.children, f c.uncommented = f c) :
    (t.uncommented.part? name).map f = (t.part? name).map f := by
  rw [part?_uncommented h, Option.map_map]
  exact Option.map_congr fun c hc => hf c (mem_children_of_part? hc)

end Reading

end SyntaxTree

open SyntaxTree

variable (source : ByteArray)

theorem fieldText_eq (name : String) (t : SyntaxTree) :
    fieldText source name t.children =
      ((t.part? name).map (SyntaxTree.text source)).getD (.error .noPart) := by
  unfold fieldText part?
  cases t.children.find? (·.info.field == some name) <;> rfl

theorem fieldText_uncommented {t : SyntaxTree} (h : t.PlainNode) (name : String) :
    fieldText source name t.uncommented.children = fieldText source name t.children := by
  rw [fieldText_eq, fieldText_eq, map_part?_uncommented h name fun c _ => text_uncommented source c]

theorem Expr.ofFirst_uncommented {t : SyntaxTree}
    (h : ∀ c ∈ t.children, Expr.ofTree source c.uncommented = Expr.ofTree source c) :
    Expr.ofFirst source t.uncommented.children = Expr.ofFirst source t.children := by
  rw [ofFirst_eq, ofFirst_eq, ← List.head?_map, ← List.head?_map]
  exact congrArg (fun es : List Expr => es.head?.getD _) (map_content_uncommented h)

theorem Expr.ofField_uncommented {t : SyntaxTree} (ht : t.PlainNode) (name : String)
    (h : ∀ c ∈ t.children, Expr.ofTree source c.uncommented = Expr.ofTree source c) :
    Expr.ofField source name t.uncommented.children = Expr.ofField source name t.children := by
  rw [ofField_eq, ofField_eq]
  exact congrArg (fun e : Option Expr => e.getD _) (map_part?_uncommented ht name h)

theorem Expr.ofTree_uncommented {t : SyntaxTree} (h : t.PlainComments) :
    Expr.ofTree source t.uncommented = Expr.ofTree source t := by
  induction t using induction_children with
  | h t ih =>
    have hchildren : ∀ c ∈ t.children, Expr.ofTree source c.uncommented = Expr.ofTree source c :=
      fun c hc => ih c hc (h.child hc)
    have hfirst := ofFirst_uncommented source hchildren
    have hpart := fun name => ofField_uncommented source h.node name hchildren
    have hsign := fieldText_uncommented source h.node "operator"
    cases t with
    | node i cs =>
      simp only [uncommented, children] at hfirst hpart hsign
      rw [uncommented, Expr.ofTree, Expr.ofTree, hfirst, hpart, hpart, hsign]
      rfl

theorem Property.ofTree_eq (t : SyntaxTree) :
    Property.ofTree source t =
      if t.kind = "shorthand_property_identifier_pattern" then .shorthand (t.text source)
      else if t.kind = "pair_pattern" then
        .pair (((t.part? "key").map (PropertyKey.ofTree source)).getD (.broken .noPart))
      else .unsupported t.position t.kind := by
  unfold Property.ofTree part?
  cases t.children.find? (·.info.field == some "key") <;> rfl

theorem Property.ofTree_uncommented {t : SyntaxTree} (h : t.PlainNode) :
    Property.ofTree source t.uncommented = Property.ofTree source t := by
  have hkey : (t.uncommented.part? "key").map (PropertyKey.ofTree source) =
      (t.part? "key").map (PropertyKey.ofTree source) :=
    map_part?_uncommented h "key" fun c _ => by simp [PropertyKey.ofTree]
  rw [Property.ofTree_eq, Property.ofTree_eq, hkey, kind_uncommented, text_uncommented,
    position_uncommented]

theorem Pattern.ofTree_uncommented {t : SyntaxTree} (h : t.PlainComments) :
    Pattern.ofTree source t.uncommented = Pattern.ofTree source t := by
  induction t using induction_children with
  | h t ih =>
    have helements : Pattern.ofChildren source t.uncommented.children =
        Pattern.ofChildren source t.children := by
      rw [ofChildren_eq, ofChildren_eq]
      exact map_content_uncommented fun c hc => ih c hc (h.child hc)
    have hproperties : t.uncommented.content.map (Property.ofTree source) =
        t.content.map (Property.ofTree source) :=
      map_content_uncommented fun c hc => Property.ofTree_uncommented source (h.child hc).node
    cases t with
    | node i cs =>
      simp only [uncommented, content, children] at helements hproperties
      rw [uncommented, Pattern.ofTree, Pattern.ofTree, helements, hproperties]
      rfl

theorem Declarator.ofTree_eq (t : SyntaxTree) :
    Declarator.ofTree source t =
      ⟨((t.part? "name").map (Pattern.ofTree source)).getD (.broken .noPart),
        (t.part? "value").map (Expr.ofTree source)⟩ := by
  unfold Declarator.ofTree part?
  cases t.children.find? (·.info.field == some "name") <;> rfl

theorem Declarator.ofTree_uncommented {t : SyntaxTree} (h : t.PlainComments) :
    Declarator.ofTree source t.uncommented = Declarator.ofTree source t := by
  have htarget : (t.uncommented.part? "name").map (Pattern.ofTree source) =
      (t.part? "name").map (Pattern.ofTree source) :=
    map_part?_uncommented h.node "name" fun c hc => Pattern.ofTree_uncommented source (h.child hc)
  have hvalue : (t.uncommented.part? "value").map (Expr.ofTree source) =
      (t.part? "value").map (Expr.ofTree source) :=
    map_part?_uncommented h.node "value" fun c hc => Expr.ofTree_uncommented source (h.child hc)
  rw [Declarator.ofTree_eq, Declarator.ofTree_eq, htarget, hvalue]

theorem declarators_uncommented {t : SyntaxTree} (h : t.PlainComments) :
    declarators source t.uncommented.children = declarators source t.children := by
  have hfilter : t.uncommented.children.filter
      (fun c => c.info.named && c.kind == "variable_declarator") =
        (t.children.filter fun c => c.info.named && c.kind == "variable_declarator").map
          uncommented := by
    refine filter_children_uncommented (fun c => by simp) fun c _ hcomment => ?_
    have hkind : c.kind ≠ "variable_declarator" := by
      intro hkind
      simp [isComment, hkind] at hcomment
    simp [hkind]
  rw [declarators, hfilter, List.map_map]
  refine List.map_congr_left fun c hc => ?_
  exact Declarator.ofTree_uncommented source (h.child (List.mem_of_mem_filter hc))

/-- The word that opens a declaration is found by its mark, so a comment in front of it is not
taken for it. -/
theorem declarationKind_uncommented {t : SyntaxTree} (h : t.PlainNode)
    (hkind : t.kind = "lexical_declaration") :
    declarationKind source t.uncommented.children = declarationKind source t.children := by
  obtain ⟨word, hword⟩ := Option.isSome_iff_exists.1 (h.opening hkind)
  have hword' : t.uncommented.part? "kind" = some word.uncommented := by
    rw [part?_uncommented h, hword, Option.map_some]
  unfold declarationKind
  rw [show t.uncommented.children.find? _ = _ from hword', show t.children.find? _ = _ from hword]
  exact text_uncommented source word

theorem Stmt.ofTree_uncommented {t : SyntaxTree} (h : t.PlainComments) :
    Stmt.ofTree source t.uncommented = Stmt.ofTree source t := by
  induction t using induction_below with
  | h t ih =>
    have hexpr : ∀ c ∈ t.children, Expr.ofTree source c.uncommented = Expr.ofTree source c :=
      fun c hc => Expr.ofTree_uncommented source (h.child hc)
    have hstmt : ∀ c ∈ t.children, Stmt.ofTree source c.uncommented = Stmt.ofTree source c :=
      fun c hc => ih c hc c .refl (h.child hc)
    have hvalue := Expr.ofFirst_uncommented source hexpr
    have htest := Expr.ofField_uncommented source h.node "condition" hexpr
    have hdeclarators := declarators_uncommented source h
    have hbody : Stmt.ofField? source "consequence" t.uncommented.children =
        Stmt.ofField? source "consequence" t.children := by
      rw [ofField?_eq, ofField?_eq]
      exact map_part?_uncommented h.node "consequence" hstmt
    have hblock : Stmt.ofChildren source t.uncommented.children =
        Stmt.ofChildren source t.children := by
      rw [ofChildren_eq, ofChildren_eq]
      exact map_content_uncommented hstmt
    have halternative : Stmt.ofAlternative? source t.uncommented.children =
        Stmt.ofAlternative? source t.children := by
      rw [ofAlternative?_eq, ofAlternative?_eq]
      refine map_part?_uncommented h.node "alternative" fun c hc => ?_
      -- Inside an `else` clause the statement is a node further down.
      have hinner : c.uncommented.content.map (Stmt.ofTree source) =
          c.content.map (Stmt.ofTree source) :=
        map_content_uncommented fun d hd =>
          ih c hc d (.single hd) ((h.child hc).child hd)
      rw [← List.head?_map, ← List.head?_map, hinner, kind_uncommented, hstmt c hc]
    have hkind := declarationKind_uncommented source h.node
    cases t with
    | node i cs =>
      simp only [uncommented, children] at hvalue htest hdeclarators hbody hblock halternative hkind
      rw [uncommented, Stmt.ofTree, Stmt.ofTree, hvalue, htest, hdeclarators, hbody, hblock,
        halternative]
      split
      · rfl
      · next hi => rw [hkind hi]; rfl
      all_goals rfl

/-! ### The search for faults -/

/-- The search for faults does not go into comments, so it finds the same node. -/
theorem SyntaxTree.searchFault_uncommented {ts : List SyntaxTree}
    (h : ∀ t ∈ ts, t.PlainComments) :
    searchFault (ts.map uncommented) = (searchFault ts).map uncommented := by
  fun_induction searchFault ts with
  | case1 => simp [searchFault]
  | case2 t waiting hfault =>
    have hfault' : t.uncommented.isFault = true := by simpa [isFault] using hfault
    rw [List.map_cons, searchFault, if_pos hfault', Option.map_some]
  | case3 t waiting hfault ih =>
    have hfault' : ¬t.uncommented.isFault = true := by simpa [isFault] using hfault
    obtain ⟨ht, hwaiting⟩ := List.forall_mem_cons.1 h
    have hsuspects : t.uncommented.children.filter isSuspect =
        (t.children.filter isSuspect).map uncommented :=
      filter_children_uncommented (fun c => by simp [isSuspect])
        fun c hc hcomment => (ht.node.comments c hc hcomment).2
    rw [List.map_cons, searchFault, if_neg hfault', hsuspects, ← List.map_append]
    refine ih (List.forall_mem_append.2 ⟨fun c hc => ?_, hwaiting⟩)
    exact ht.child (List.mem_of_mem_filter hc)

theorem SyntaxTree.damage?_uncommented {t : SyntaxTree} (h : t.PlainComments) :
    t.uncommented.damage? source = t.damage? source := by
  have hculprit : t.uncommented.culprit = t.culprit.uncommented := by
    have hsearch : searchFault [t.uncommented] = (searchFault [t]).map uncommented :=
      searchFault_uncommented (List.forall_mem_singleton.2 h)
    rw [culprit, culprit, hsearch]
    cases searchFault [t] <;> rfl
  rw [damage?, damage?, hculprit, info_uncommented, position_uncommented, text_uncommented]

/-! ### Scripts -/

theorem Script.ofTree_uncommented {root : SyntaxTree} (h : root.PlainComments) :
    Script.ofTree source root.uncommented = Script.ofTree source root := by
  have hbody :
      root.uncommented.content.map (fun c => TopLevel.mk (c.damage? source) (.ofTree source c)) =
        root.content.map fun c => ⟨c.damage? source, .ofTree source c⟩ :=
    map_content_uncommented fun c hc => by
      rw [damage?_uncommented source (h.child hc), Stmt.ofTree_uncommented source (h.child hc)]
  exact congrArg₂ Script.mk (damage?_uncommented source h) hbody

/-- **Comments are transparent.**  Without its comments a tree has none left below its root, and is
compiled as it is with them, as a whole and statement by statement: to the same program or the same
errors, and into the same scope. -/
theorem Script.comments_are_transparent {root : SyntaxTree} (h : root.PlainComments)
    (s : Settings) (scope : Scope α) :
    (∀ t, root.uncommented.Holds t → ∀ c ∈ t.children, c.isComment = false) ∧
      (Script.ofTree source root.uncommented).compile s scope =
        (Script.ofTree source root).compile s scope ∧
      (Script.ofTree source root.uncommented).compileEach s scope =
        (Script.ofTree source root).compileEach s scope := by
  refine ⟨fun t ht c hc => ?_, ?_, ?_⟩
  · obtain ⟨d, -, rfl⟩ := exists_of_holds_uncommented ht
    exact isComment_eq_false_of_mem_uncommented hc
  · rw [Script.ofTree_uncommented source h]
  · rw [Script.ofTree_uncommented source h]

namespace Script

namespace CommentedTree

def leaf (kind : String) (named : Bool) (start stop : Nat) (field : Option String) : SyntaxTree :=
  .node ⟨kind, start, stop, 1, start - 4, named, false, false, field⟩ []

def comment (start : Nat) : SyntaxTree := leaf "comment" true start (start + 4) none

/-- The tree of `let [/**/a] = (/**/1)` behind a line that names an interpreter. -/
def root : SyntaxTree :=
  .node ⟨"program", 0, 25, 0, 0, true, false, false, none⟩
    [.node ⟨"hash_bang_line", 0, 3, 0, 0, true, false, false, none⟩ [],
      .node ⟨"lexical_declaration", 4, 25, 1, 0, true, false, false, none⟩
        [leaf "let" false 4 7 (some "kind"),
          .node ⟨"variable_declarator", 8, 25, 1, 4, true, false, false, none⟩
            [.node ⟨"array_pattern", 8, 15, 1, 4, true, false, false, some "name"⟩
                [leaf "[" false 8 9 none, comment 9, leaf "identifier" true 13 14 none,
                  leaf "]" false 14 15 none],
              leaf "=" false 16 17 none,
              .node ⟨"parenthesized_expression", 18, 25, 1, 14, true, false, false, some "value"⟩
                [leaf "(" false 18 19 none, comment 19, leaf "number" true 23 24 none,
                  leaf ")" false 24 25 none]]]]

/-- The pattern is read as one name and the parentheses as one number.  Without comments three nodes
are gone, and nothing else is compiled. -/
theorem comments_in_declaration :
    let source := "#!s\nlet [/**/a] = (/**/1)".toUTF8
    let scope : Scope Unit := .empty []
    let script := Script.ofTree source root
    let script' := Script.ofTree source root.uncommented
    root.PlainComments ∧ root.size = 16 ∧ root.uncommented.size = 13 ∧
      (script.plan .standard scope).toOption.map (·.code 0 []) = some [.const 0, .setContext 0] ∧
      script'.compile .standard scope = script.compile .standard scope ∧
      script'.compileEach .standard scope = script.compileEach .standard scope := by
  intro source scope script script'
  have hplain : root.PlainComments := by
    simp [root, leaf, comment, plainComments_node, plainNode_iff, isComment, isSuspect, children,
      kind, info, part?]
  obtain ⟨-, hcompile, heach⟩ := comments_are_transparent source hplain .standard scope
  have hcode : (script.plan .standard scope).toOption.map (·.code 0 []) =
      some [.const 0, .setContext 0] := by decide +kernel
  exact ⟨hplain, by decide +kernel, by decide +kernel, hcode, hcompile, heach⟩

end CommentedTree

end Script

end StackScript
