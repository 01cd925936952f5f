import StackScript.Proofs.Boundary
import StackScript.Proofs.Supported

/-!
# Trees that can be read

A tree is sturdy if every node of it has the children that its kind asks for and starts and stops at
boundaries of the source.  Nothing is missing when such a tree is read (`Sturdy.whole`), and the
texts of its nodes are parts of the source (`Sturdy.exists_text`).

Literals become patterns once it is known that they are (`asPattern`), so that sturdiness has to
look ahead: a pair needs its key before it is a pattern.  Then the pattern is sturdy as well
(`Sturdy.asPattern`).
-/

namespace StackScript

namespace SyntaxTree

/-- The parts that a node of some kind has to have, also as a pattern. -/
def neededParts (kind : String) : List String :=
  if kind = "pair" then ["key"] else partNames kind

/-- The kinds of nodes that stand around something. -/
def wrapperKinds : List String :=
  ["expression_statement", "parenthesized_expression", "else_clause"]

/-- The children that a node of some kind has to have. -/
structure Shaped (kind : String) (cs : List SyntaxTree) : Prop where
  parts : ∀ name ∈ neededParts kind, ∃ c ∈ cs, c.info.field = some name
  content : kind ∈ wrapperKinds → ∃ c ∈ cs, c.isContent = true
  opening : kind = "lexical_declaration" → cs ≠ []

/-- Every node starts and stops at boundaries and has the children that its kind asks for. -/
inductive Sturdy (source : List Char) : SyntaxTree → Prop
  | node {i : NodeInfo} {cs : List SyntaxTree} (start : Boundary source i.start)
      (stop : Boundary source i.stop) (shape : Shaped i.kind cs)
      (below : ∀ c ∈ cs, Sturdy source c) : Sturdy source (.node i cs)

/-- All trees of a list are sturdy. -/
def AllSturdy (source : List Char) (ts : List SyntaxTree) : Prop := ∀ t ∈ ts, t.Sturdy source

section AllSturdy

variable {source : List Char} {t : SyntaxTree} {ts : List SyntaxTree}

@[simp] theorem allSturdy_nil : AllSturdy source [] := by simp [AllSturdy]

@[simp] theorem allSturdy_cons : AllSturdy source (t :: ts) ↔
    t.Sturdy source ∧ AllSturdy source ts :=
  List.forall_mem_cons

@[simp] theorem allSturdy_reverse : AllSturdy source ts.reverse ↔ AllSturdy source ts := by
  simp [AllSturdy]

end AllSturdy

/-- The kinds of comments. -/
def commentKinds : List String := ["comment", "hash_bang_line"]

/-- The kinds that ask for children, and those of comments. -/
def demandingKinds : List String :=
  ["if_statement", "variable_declarator", "pair", "pair_pattern", "binary_expression",
    "lexical_declaration"] ++ wrapperKinds ++ commentKinds

/-- Most kinds ask for no children. -/
theorem shaped_of_not_mem {kind : String} (h : kind ∉ demandingKinds) (cs : List SyntaxTree) :
    Shaped kind cs := by
  simp only [demandingKinds, wrapperKinds, commentKinds, List.mem_append, List.mem_cons,
    List.not_mem_nil, or_false, not_or] at h
  have hparts : neededParts kind = [] := by
    unfold neededParts partNames
    split_ifs
    · tauto
    · split <;> tauto
  constructor
  · simp [hparts]
  · simp [wrapperKinds, h]
  · simp [h]

theorem shaped_of_parts {kind : String} (hkind : kind ∉ "lexical_declaration" :: wrapperKinds)
    {cs : List SyntaxTree} (hparts : neededParts kind ⊆ cs.filterMap (·.info.field)) :
    Shaped kind cs := by
  simp only [List.mem_cons, not_or] at hkind
  refine ⟨fun name hname => ?_, fun h => absurd h hkind.2, fun h => absurd h hkind.1⟩
  exact List.mem_filterMap.1 (hparts hname)

@[simp] theorem field_inField (field : String) (t : SyntaxTree) :
    (Grammar.inField field t).info.field = some field := by
  cases t
  rfl

namespace Sturdy

variable {source : List Char} {t : SyntaxTree}

theorem start (h : t.Sturdy source) : Boundary source t.info.start := by
  obtain ⟨hstart, -, -, -⟩ := h
  exact hstart

theorem child (h : t.Sturdy source) {c : SyntaxTree} (hc : c ∈ t.children) : c.Sturdy source := by
  obtain ⟨-, -, -, hbelow⟩ := h
  exact hbelow c hc

theorem holds (h : t.Sturdy source) {c : SyntaxTree} (hc : t.Holds c) : c.Sturdy source := by
  induction hc with
  | refl => exact h
  | tail _ hc ih => exact ih.child hc

theorem inField (h : t.Sturdy source) (field : String) :
    (Grammar.inField field t).Sturdy source := by
  obtain ⟨hstart, hstop, hshape, hbelow⟩ := h
  exact .node hstart hstop hshape hbelow

theorem unnamed (h : t.Sturdy source) : (Grammar.unnamed t).Sturdy source := by
  obtain ⟨hstart, hstop, hshape, hbelow⟩ := h
  exact .node hstart hstop hshape hbelow

end Sturdy

/-! ### Patterns -/

section Patterns

open Grammar

theorem asPatterns_eq (ts : List SyntaxTree) : asPatterns ts = ts.map asPattern := by
  induction ts with
  | nil => rfl
  | cons t ts ih => rw [asPatterns, ih, List.map_cons]

theorem field_asPattern (t : SyntaxTree) : (asPattern t).info.field = t.info.field := by
  obtain ⟨i, cs⟩ := t
  unfold asPattern
  split
  all_goals try rfl
  split <;> rfl

theorem Sturdy.asPatterns {source : List Char} {cs : List SyntaxTree}
    (h : ∀ c ∈ cs, (asPattern c).Sturdy source) : ∀ c ∈ asPatterns cs, c.Sturdy source := by
  rw [asPatterns_eq]
  simpa using h

theorem Sturdy.asTarget {source : List Char} {cs : List SyntaxTree}
    (h : ∀ c ∈ cs, c.Sturdy source) (hpattern : ∀ c ∈ cs, (asPattern c).Sturdy source) :
    ∀ c ∈ asTarget cs, c.Sturdy source := by
  cases cs with
  | nil => simp [Grammar.asTarget]
  | cons c cs =>
    rw [Grammar.asTarget, List.forall_mem_cons]
    exact ⟨hpattern c (by simp), fun d hd => h d (by simp [hd])⟩

/-- A node under another kind, with other children. -/
theorem Sturdy.renamed {source : List Char} {i : NodeInfo} {kind : String} {cs : List SyntaxTree}
    (start : Boundary source i.start) (stop : Boundary source i.stop)
    (hkind : kind ∉ demandingKinds) (below : ∀ c ∈ cs, c.Sturdy source) :
    (SyntaxTree.node { i with kind := kind } cs).Sturdy source :=
  .node start stop (shaped_of_not_mem hkind cs) below

/-- **Patterns are as sturdy** as the literals that they look like. -/
theorem Sturdy.asPattern {source : List Char} {t : SyntaxTree} (h : t.Sturdy source) :
    (asPattern t).Sturdy source := by
  induction h with
  | @node i cs start stop shape below ih =>
    unfold Grammar.asPattern
    split
    · exact .renamed start stop (by decide) (Sturdy.asPatterns ih)
    · exact .renamed start stop (by decide) (Sturdy.asPatterns ih)
    · exact .renamed start stop (by decide) (Sturdy.asTarget below ih)
    · split
      · exact .renamed start stop (by decide) (by simp)
      · exact .renamed start stop (by decide) (Sturdy.asPatterns ih)
    · next hkind =>
      -- A pair: only its pattern has to have a key, which it takes over from the literal.
      refine .node start stop ⟨?_, by simp [wrapperKinds], by simp⟩ (Sturdy.asPatterns ih)
      obtain ⟨c, hc, hfield⟩ := shape.parts "key" (by simp [hkind, neededParts])
      have hkey : neededParts "pair_pattern" = ["key"] := rfl
      simp only [hkey, List.mem_singleton, forall_eq, asPatterns_eq, List.mem_map]
      exact ⟨Grammar.asPattern c, ⟨c, hc, rfl⟩, (field_asPattern c).trans hfield⟩
    · exact .renamed start stop (by decide) below
    · exact .node start stop shape below

end Patterns

/-! ### Texts -/

variable {source : String} {t : SyntaxTree}

theorem Sturdy.exists_text (h : t.Sturdy source.toList) :
    ∃ cs, cs <:+: source.toList ∧ t.text source.toUTF8 = .ok (String.ofList cs) := by
  obtain ⟨hstart, hstop, -, -⟩ := h
  obtain ⟨cs, hcs, htext⟩ := hstart.exists_text hstop
  exact ⟨cs, hcs, by simp only [text, info, htext]⟩

theorem Sturdy.complete (h : t.Sturdy source.toList) : t.Complete source.toUTF8 := by
  obtain ⟨cs, -, htext⟩ := h.exists_text
  obtain @⟨i, _, -, -, hshape, -⟩ := h
  refine ⟨⟨_, htext⟩, fun name hname => ?_, fun hkind => ?_, hshape.opening⟩
  · have hneeded : name ∈ neededParts i.kind := by
      unfold neededParts
      split
      · next hpair => simp [kind, info, hpair, partNames] at hname
      · exact hname
    obtain ⟨c, hc, hfield⟩ := hshape.parts name hneeded
    exact Option.isSome_iff_exists.1 (List.find?_isSome.2 ⟨c, hc, by simp [hfield]⟩)
  · obtain ⟨c, hc, hcontent⟩ := hshape.content hkind
    exact List.ne_nil_of_mem (List.mem_filter.2 ⟨hc, hcontent⟩)

/-- **Nothing is missing** in a sturdy tree. -/
theorem Sturdy.whole (h : t.Sturdy source.toList) : t.Whole source.toUTF8 :=
  fun _ hc => (h.holds hc).complete

end SyntaxTree

end StackScript
