import StackScript.Proofs.DepthLimit
import StackScript.Proofs.TreeReading

/-!
# Levels and nodes

A construct costs one level for a node of the tree it is read from, and no node is charged twice on
the way down: the value of a declarator is charged below its pattern, but the two are different
children.  Hence a tree has at least as many nodes as the script read from it has levels
(`Script.levels_ofTree`).
-/

namespace StackScript

namespace SyntaxTree

variable {t c d : SyntaxTree} {cs : List SyntaxTree}

theorem size_le_sizeAll (h : c ∈ cs) : c.size ≤ sizeAll cs := by
  induction cs with
  | nil => cases h
  | cons d cs ih =>
    rw [sizeAll]
    rcases List.mem_cons.1 h with rfl | hmem
    · omega
    · have := ih hmem
      omega

/-- Two nodes at different places of a list. -/
theorem size_add_size_le (hne : c ≠ d) (hc : c ∈ cs) (hd : d ∈ cs) :
    c.size + d.size ≤ sizeAll cs := by
  induction cs with
  | nil => cases hc
  | cons e cs ih =>
    rw [sizeAll]
    rcases List.mem_cons.1 hc with rfl | hcs
    · have := size_le_sizeAll ((List.mem_cons.1 hd).resolve_left hne.symm)
      omega
    · rcases List.mem_cons.1 hd with rfl | hds
      · have := size_le_sizeAll hcs
        omega
      · have := ih hcs hds
        omega

theorem size_lt_of_mem_children (h : c ∈ t.children) : c.size < t.size :=
  Nat.lt_of_le_of_lt (size_le_sizeAll h) t.sizeAll_children

theorem size_le_of_holds (h : t.Holds c) : c.size ≤ t.size := by
  induction h with
  | refl => exact Nat.le_refl _
  | tail _ hchild ih => exact Nat.le_trans (Nat.le_of_lt (size_lt_of_mem_children hchild)) ih

theorem size_pos (t : SyntaxTree) : 0 < t.size := Nat.zero_lt_of_lt t.sizeAll_children

theorem field_of_part? {name : String} (h : t.part? name = some c) : c.info.field = some name := by
  simpa using List.find?_some h

/-- Two parts of a node are different children. -/
theorem size_add_size_lt {name name' : String} (hne : name ≠ name') (hc : t.part? name = some c)
    (hd : t.part? name' = some d) : c.size + d.size < t.size := by
  have hdiffer : c ≠ d := by
    rintro rfl
    have hfield := (field_of_part? hc).symm.trans (field_of_part? hd)
    exact hne (Option.some.inj hfield)
  have hle := size_add_size_le hdiffer (mem_children_of_part? hc) (mem_children_of_part? hd)
  exact Nat.lt_of_le_of_lt hle t.sizeAll_children

end SyntaxTree

/-- Levels of several constructs are those of the deepest one. -/
theorem levelsAll_le {δ : Type} {all : List δ → Nat} {one : δ → Nat} (hnil : all [] = 0)
    (hcons : ∀ x xs, all (x :: xs) = max (one x) (all xs)) {xs : List δ} {n : Nat}
    (h : ∀ x ∈ xs, one x ≤ n) : all xs ≤ n := by
  induction xs with
  | nil =>
    rw [hnil]
    exact Nat.zero_le n
  | cons x xs ih =>
    obtain ⟨hx, hxs⟩ := List.forall_mem_cons.1 h
    rw [hcons]
    exact Nat.max_le.2 ⟨hx, ih hxs⟩

theorem Pattern.levelsAll_le {value n : Nat} {ps : List Pattern}
    (h : ∀ p ∈ ps, p.levels value ≤ n) : Pattern.levelsAll value ps ≤ n :=
  StackScript.levelsAll_le (by rw [levelsAll]) (fun p ps => by rw [levelsAll]) h

theorem Declarator.levelsAll_le {n : Nat} {ds : List Declarator}
    (h : ∀ d ∈ ds, d.target.levels (Expr.levels? d.value) ≤ n) : Declarator.levelsAll ds ≤ n :=
  StackScript.levelsAll_le rfl (fun _ _ => rfl) h

theorem Stmt.levelsAll_le {n : Nat} {ts : List Stmt} (h : ∀ t ∈ ts, t.levels ≤ n) :
    Stmt.levelsAll ts ≤ n :=
  StackScript.levelsAll_le (by rw [levelsAll]) (fun t ts => by rw [levelsAll]) h

section Reading

variable (source : ByteArray)

/-! ### Expressions and patterns -/

/-- What is read of a child that may be missing. -/
theorem Expr.levels_getD {child : Option SyntaxTree} {why : Breakdown} {n : Nat}
    (h : ∀ c ∈ child, (Expr.ofTree source c).levels ≤ n) :
    ((child.map (Expr.ofTree source)).getD (.broken why)).levels ≤ n := by
  cases child with
  | none => exact Nat.zero_le n
  | some c => exact h c rfl

theorem Expr.levels_ofTree (t : SyntaxTree) : (Expr.ofTree source t).levels ≤ t.size := by
  induction t using SyntaxTree.induction_children with
  | h t ih =>
    have hpos := t.size_pos
    have hchild : ∀ c ∈ t.children, (Expr.ofTree source c).levels ≤ t.size - 1 := by
      intro c hc
      have hlevels := ih c hc
      have hsize := SyntaxTree.size_lt_of_mem_children hc
      omega
    obtain ⟨i, cs⟩ := t
    have hfield (name : String) :
        (Expr.ofField source name cs).levels ≤ (SyntaxTree.node i cs).size - 1 := by
      rw [Expr.ofField_eq]
      exact Expr.levels_getD source fun c hc => hchild c (List.mem_of_find?_eq_some hc)
    rw [Expr.ofTree]
    split
    -- Literals and names first, then what has operands.
    · exact hpos
    · exact hpos
    · exact hpos
    · exact hpos
    · exact hpos
    · have hfirst : (Expr.ofFirst source cs).levels ≤ (SyntaxTree.node i cs).size - 1 := by
        rw [Expr.ofFirst_eq]
        refine Expr.levels_getD source fun c hc => hchild c ?_
        exact List.mem_of_mem_filter (List.mem_of_head? hc)
      simp only [levels]
      omega
    · have hleft := hfield "left"
      have hright := hfield "right"
      simp only [levels]
      omega
    · exact Nat.zero_le _

theorem Pattern.levels_ofTree (value : Nat) (t : SyntaxTree) :
    (Pattern.ofTree source t).levels value ≤ t.size + value := by
  induction t using SyntaxTree.induction_children with
  | h t ih =>
    have hpos := t.size_pos
    have hchild : ∀ c ∈ t.children,
        (Pattern.ofTree source c).levels value ≤ t.size - 1 + value := by
      intro c hc
      have hlevels := ih c hc
      have hsize := SyntaxTree.size_lt_of_mem_children hc
      omega
    obtain ⟨i, cs⟩ := t
    rw [Pattern.ofTree]
    split
    · simp only [levels]
      omega
    · have helements : Pattern.levelsAll value (Pattern.ofChildren source cs) ≤
          (SyntaxTree.node i cs).size - 1 + value := by
        rw [Pattern.ofChildren_eq]
        refine Pattern.levelsAll_le fun p hp => ?_
        obtain ⟨c, hc, rfl⟩ := List.mem_map.1 hp
        exact hchild c (List.mem_of_mem_filter hc)
      simp only [levels]
      omega
    · simp only [levels]
      omega
    · exact Nat.zero_le _

/-! ### Statements -/

/-- The value is charged below the pattern, and both are parts of the declarator. -/
theorem Declarator.levels_ofTree (t : SyntaxTree) :
    (Declarator.ofTree source t).target.levels
      (Expr.levels? (Declarator.ofTree source t).value) ≤ t.size := by
  have hvalue : (Declarator.ofTree source t).value =
      (t.part? "value").map (Expr.ofTree source) := rfl
  cases hname : t.part? "name" with
  | none =>
    simp only [Declarator.ofTree, show t.children.find? _ = none from hname]
    exact Nat.zero_le _
  | some c =>
    have htarget : (Declarator.ofTree source t).target = Pattern.ofTree source c := by
      simp only [Declarator.ofTree, show t.children.find? _ = some c from hname]
    rw [htarget, hvalue]
    -- The levels of the value come on top of those of the pattern, whose nodes are others.
    refine Nat.le_trans (Pattern.levels_ofTree source _ c) ?_
    cases hpart : t.part? "value" with
    | none =>
      exact Nat.le_of_lt (SyntaxTree.size_lt_of_mem_children
        (SyntaxTree.mem_children_of_part? hname))
    | some d =>
      have hsize := SyntaxTree.size_add_size_lt (by decide) hname hpart
      have hlevels := Expr.levels_ofTree source d
      simp only [Expr.levels?, Option.map_some, Option.getD_some]
      omega

theorem Stmt.levels_getD {child : Option SyntaxTree} {why : Breakdown} {n : Nat}
    (h : ∀ c ∈ child, (Stmt.ofTree source c).levels ≤ n) :
    ((child.map (Stmt.ofTree source)).getD (.broken why)).levels ≤ n := by
  cases child with
  | none => simp [levels]
  | some c => exact h c rfl

/-- What stands behind `else` is read from below the node. -/
theorem Stmt.levels_ofAlternative? {t : SyntaxTree} {n : Nat}
    (h : ∀ c ∈ t.children, ∀ d, c.Holds d → (Stmt.ofTree source d).levels ≤ n) {s : Stmt}
    (hs : Stmt.ofAlternative? source t.children = some s) : s.levels ≤ n := by
  rw [Stmt.ofAlternative?_eq] at hs
  obtain ⟨c, hc, rfl⟩ := Option.map_eq_some_iff.1 hs
  have hmem := List.mem_of_find?_eq_some hc
  split
  · refine Stmt.levels_getD source fun d hd => h c hmem d ?_
    exact .single (SyntaxTree.mem_children_of_mem_content (List.mem_of_head? hd))
  · exact h c hmem c .refl

theorem Stmt.levels_ofTree (t : SyntaxTree) : (Stmt.ofTree source t).levels ≤ t.size := by
  -- Children are not enough: the statement of an `else` clause stands one node further down.
  induction t using SyntaxTree.induction_below with
  | h t ih =>
    have hpos := t.size_pos
    have hbelow : ∀ c ∈ t.children, ∀ d, c.Holds d →
        (Stmt.ofTree source d).levels ≤ t.size - 1 := by
      intro c hc d hd
      have hlevels := ih c hc d hd
      have hchild := SyntaxTree.size_lt_of_mem_children hc
      have hsize := SyntaxTree.size_le_of_holds hd
      omega
    have hexpr : ∀ c ∈ t.children, (Expr.ofTree source c).levels ≤ t.size - 1 := by
      intro c hc
      have hlevels := Expr.levels_ofTree source c
      have hchild := SyntaxTree.size_lt_of_mem_children hc
      omega
    have hfield : (Expr.ofField source "condition" t.children).levels ≤ t.size - 1 := by
      rw [Expr.ofField_eq]
      exact Expr.levels_getD source fun c hc => hexpr c (List.mem_of_find?_eq_some hc)
    have hbody : ((Stmt.ofField? source "consequence" t.children).getD (.broken .noPart)).levels ≤
        t.size - 1 := by
      rw [Stmt.ofField?_eq]
      exact Stmt.levels_getD source fun c hc => hbelow c (List.mem_of_find?_eq_some hc) c .refl
    have halternative := fun s => Stmt.levels_ofAlternative? source hbelow (s := s)
    obtain ⟨i, cs⟩ := t
    rw [Stmt.ofTree]
    split
    · have hfirst : (Expr.ofFirst source cs).levels ≤ (SyntaxTree.node i cs).size - 1 := by
        rw [Expr.ofFirst_eq]
        refine Expr.levels_getD source fun c hc => hexpr c ?_
        exact List.mem_of_mem_filter (List.mem_of_head? hc)
      simp only [levels]
      omega
    · have hdeclarators : Declarator.levelsAll (declarators source cs) ≤
          (SyntaxTree.node i cs).size - 1 := by
        refine Declarator.levelsAll_le fun d hd => ?_
        obtain ⟨c, hc, rfl⟩ := List.mem_map.1 hd
        have hlevels := Declarator.levels_ofTree source c
        have hchild := SyntaxTree.size_lt_of_mem_children (t := .node i cs)
          (List.mem_of_mem_filter hc)
        omega
      simp only [levels]
      omega
    · rw [levels]
      exact hpos
    · rw [levels]
      exact hpos
    · rw [levels]
      exact hpos
    · rw [levels]
      exact hpos
    · simp only [SyntaxTree.children] at hfield hbody halternative
      dsimp only
      split
      · simp only [levels]
        omega
      · next s hs =>
        have := halternative s hs
        simp only [levels]
        omega
    · rw [levels]
      exact hpos
    · have hstatements : Stmt.levelsAll (Stmt.ofChildren source cs) ≤
          (SyntaxTree.node i cs).size - 1 := by
        rw [Stmt.ofChildren_eq]
        refine Stmt.levelsAll_le fun s hs => ?_
        obtain ⟨c, hc, rfl⟩ := List.mem_map.1 hs
        exact hbelow c (List.mem_of_mem_filter hc) c .refl
      simp only [levels]
      omega
    · simp [levels]

/-- **A script has at most as many levels as its tree has nodes.** -/
theorem Script.levels_ofTree (tree : SyntaxTree) :
    (Script.ofTree source tree).levels ≤ tree.size := by
  refine Stmt.levelsAll_le fun s hs => ?_
  simp only [Script.ofTree, List.map_map, List.mem_map] at hs
  obtain ⟨c, hc, rfl⟩ := hs
  have hlevels := Stmt.levels_ofTree source c
  have hchild := SyntaxTree.size_lt_of_mem_children (List.mem_of_mem_filter hc)
  exact Nat.le_trans hlevels (Nat.le_of_lt hchild)

end Reading

end StackScript
