import Mathlib.Data.List.Basic
import StackScript.Compile
import StackScript.Proofs.TreeReading

/-!
# The search for faults

The node to blame for a syntax error is searched with a list of trees that wait, so that depth costs
nothing.  This file compares the search with two others that need no such list.

* `SyntaxTree.searchRounds` : the loop round by round, with the waiting trees on a stack;
* `SyntaxTree.searchRounds_eq` : it ends after no more rounds than there are nodes, and one;
* `SyntaxTree.firstFault` : the search by recursion, below the flagged children only;
* `SyntaxTree.searchFault_eq_findSome?` : the waiting trees are searched one after the other;
* `SyntaxTree.firstFault_eq_find?` : with flags that tell the truth, what is found is the first
  fault in document order;
* `SyntaxTree.searchFault_finds_first` : hence a syntax error is reported exactly if there is a
  fault, and it is the first one that is reported.
-/

namespace StackScript

namespace SyntaxTree

/-! ### The loop -/

/-- So many rounds of the search at most.  A round takes the last tree from the stack; if it is no
fault, its flagged children are put on the stack, the first one last.  There may be no answer
yet. -/
def searchRounds : Nat → List SyntaxTree → Option (Option SyntaxTree)
  | 0, _ => none
  | n + 1, stack =>
    match stack.getLast? with
    | none => some none
    | some t =>
      if t.isFault then some (some t)
      else searchRounds n (stack.dropLast ++ (t.children.filter isSuspect).reverse)

theorem sizeAll_reverse (ts : List SyntaxTree) : sizeAll ts.reverse = sizeAll ts := by
  induction ts with
  | nil => rfl
  | cons t ts ih =>
    rw [List.reverse_cons, sizeAll_append, ih]
    simp only [sizeAll]
    omega

/-- **The loop ends.**  It needs no more rounds than there are nodes in the waiting trees, and one
to find the stack empty. -/
theorem searchRounds_eq {n : Nat} {stack : List SyntaxTree} (h : sizeAll stack < n) :
    searchRounds n stack = some (searchFault stack.reverse) := by
  induction n generalizing stack with
  | zero => omega
  | succ n ih =>
    rcases stack.eq_nil_or_concat' with rfl | ⟨stack, t, rfl⟩
    · simp [searchRounds, searchFault]
    · rw [searchRounds, List.getLast?_concat, List.reverse_concat, searchFault]
      by_cases hfault : t.isFault
      · simp only [hfault, if_true]
      · -- What is put on the stack has fewer nodes than what is taken from it.
        have hsize : sizeAll (stack ++ (t.children.filter isSuspect).reverse) < n := by
          have hchildren := sizeAll_children t
          have hfilter := sizeAll_filter_le isSuspect t.children
          rw [sizeAll_append] at h ⊢
          rw [sizeAll_reverse]
          simp only [sizeAll] at h
          omega
        simp only [hfault, List.dropLast_concat]
        rw [if_neg Bool.false_ne_true, if_neg Bool.false_ne_true, ih hsize]
        simp

/-! ### The search by recursion -/

mutual

/-- The first fault in a tree: the root, or the first one in the children. -/
def firstFault : SyntaxTree → Option SyntaxTree
  | node i cs => if (node i cs).isFault then some (node i cs) else firstFaultAmong cs

/-- The first fault in the flagged ones of several trees. -/
def firstFaultAmong : List SyntaxTree → Option SyntaxTree
  | [] => none
  | c :: cs =>
    if c.isSuspect then (firstFault c).or (firstFaultAmong cs) else firstFaultAmong cs

end

theorem firstFaultAmong_eq (cs : List SyntaxTree) :
    firstFaultAmong cs = (cs.filter isSuspect).findSome? firstFault := by
  induction cs with
  | nil => rfl
  | cons c cs ih =>
    rw [firstFaultAmong, List.filter_cons]
    split
    · rw [List.findSome?_cons, ih]
      cases c.firstFault <;> rfl
    · exact ih

theorem firstFault_of_isFault {t : SyntaxTree} (h : t.isFault = true) : t.firstFault = some t := by
  cases t with
  | node i cs => rw [firstFault, if_pos h]

theorem firstFault_of_not_isFault {t : SyntaxTree} (h : ¬t.isFault = true) :
    t.firstFault = (t.children.filter isSuspect).findSome? firstFault := by
  cases t with
  | node i cs => rw [firstFault, if_neg h, firstFaultAmong_eq]; rfl

/-- **What the waiting trees mean**: each is searched to its end before the next one. -/
theorem searchFault_eq_findSome? (ts : List SyntaxTree) :
    searchFault ts = ts.findSome? firstFault := by
  fun_induction searchFault ts with
  | case1 => rfl
  | case2 t waiting hfault => rw [List.findSome?_cons, firstFault_of_isFault hfault]
  | case3 t waiting hfault ih =>
    rw [ih, List.findSome?_append, List.findSome?_cons, ← firstFault_of_not_isFault hfault]
    cases t.firstFault <;> rfl

theorem searchFault_singleton (t : SyntaxTree) : searchFault [t] = t.firstFault := by
  rw [searchFault_eq_findSome?, List.findSome?_cons]
  cases t.firstFault <;> rfl

/-- A node is the root, or flags lead from there to it. -/
def Flagged : SyntaxTree → SyntaxTree → Prop :=
  Relation.ReflTransGen fun t c => c ∈ t.children ∧ c.isSuspect = true

/-- The search by recursion fails only if there is nothing to find. -/
theorem firstFault_eq_none_iff {t : SyntaxTree} :
    t.firstFault = none ↔ ∀ d, t.Flagged d → d.isFault = false := by
  induction t using induction_children with
  | h t ih =>
    by_cases hfault : t.isFault = true
    · rw [firstFault_of_isFault hfault]
      refine iff_of_false (by simp) fun h => ?_
      rw [h t .refl] at hfault
      cases hfault
    · rw [firstFault_of_not_isFault hfault, List.findSome?_eq_none_iff]
      constructor
      · intro h d hd
        rcases Relation.ReflTransGen.cases_head hd with rfl | ⟨c, ⟨hc, hsuspect⟩, hrest⟩
        · simpa using hfault
        · exact (ih c hc).1 (h c (List.mem_filter.2 ⟨hc, hsuspect⟩)) d hrest
      · intro h c hc
        have hc' := List.mem_filter.1 hc
        exact (ih c hc'.1).2 fun d hd => h d (.head hc' hd)

/-! ### Document order -/

/-- The flags tell the truth: a node has an error exactly if it is a fault or holds one. -/
def Consistent (t : SyntaxTree) : Prop :=
  ∀ c, t.Holds c → (c.info.hasError = true ↔ ∃ d, c.Holds d ∧ d.isFault = true)

theorem consistent_iff {t : SyntaxTree} :
    t.Consistent ↔ ∀ c ∈ t.preorder, c.info.hasError = c.preorder.any isFault := by
  refine forall_congr' fun c => imp_congr mem_preorder.symm ?_
  have hany : c.preorder.any isFault = true ↔ ∃ d, c.Holds d ∧ d.isFault = true := by
    simp only [List.any_eq_true, mem_preorder]
  rw [← hany]
  exact Bool.eq_iff_iff.symm

instance (t : SyntaxTree) : Decidable t.Consistent := decidable_of_iff _ consistent_iff.symm

theorem Consistent.child {t c : SyntaxTree} (h : t.Consistent) (hc : c ∈ t.children) :
    c.Consistent :=
  (forall_holds_iff.1 h).2 c hc

theorem Consistent.hasError_iff {t : SyntaxTree} (h : t.Consistent) :
    t.info.hasError = true ↔ ∃ d, t.Holds d ∧ d.isFault = true :=
  h t .refl

/-- With flags that tell the truth a child without a flag can be left out. -/
theorem Consistent.find?_preorder_of_not_isSuspect {t : SyntaxTree} (h : t.Consistent)
    (hsuspect : ¬t.isSuspect = true) : t.preorder.find? isFault = none := by
  rw [List.find?_eq_none]
  intro d hd hfault
  refine hsuspect ?_
  rw [isSuspect, h.hasError_iff.2 ⟨d, mem_preorder.1 hd, hfault⟩, Bool.true_or]

theorem findSome?_suspects {cs : List SyntaxTree}
    (h : ∀ c ∈ cs, c.Consistent ∧ c.firstFault = c.preorder.find? isFault) :
    (cs.filter isSuspect).findSome? firstFault = (cs.flatMap preorder).find? isFault := by
  induction cs with
  | nil => rfl
  | cons c cs ih =>
    obtain ⟨⟨hc, hfirst⟩, hcs⟩ := List.forall_mem_cons.1 h
    rw [List.filter_cons, List.flatMap_cons, List.find?_append, ← ih hcs]
    by_cases hsuspect : c.isSuspect = true
    · rw [if_pos hsuspect, List.findSome?_cons, hfirst]
      cases c.preorder.find? isFault <;> rfl
    · rw [if_neg hsuspect, hc.find?_preorder_of_not_isSuspect hsuspect, Option.none_or]

/-- **The recursion follows document order.** -/
theorem firstFault_eq_find? {t : SyntaxTree} (h : t.Consistent) :
    t.firstFault = t.preorder.find? isFault := by
  induction t using induction_children with
  | h t ih =>
    rw [preorder_eq]
    by_cases hfault : t.isFault = true
    · rw [firstFault_of_isFault hfault, List.find?_cons_of_pos hfault]
    · rw [firstFault_of_not_isFault hfault, List.find?_cons_of_neg hfault]
      exact findSome?_suspects fun c hc => ⟨h.child hc, ih c hc (h.child hc)⟩

/-! ### Reports -/

/-- What is reported of a fault: its place with the start of its text, or that its bytes are no
text. -/
def complaint (source : ByteArray) (d : SyntaxTree) : Fault :=
  match d.text source with
  | .ok text => .refused ⟨.grammar (String.ofList (text.toList.take excerptLength)), d.position⟩
  | .error why => .broken why

variable {α : Type}

theorem run_checkDamage_of_hasError {t : SyntaxTree} (h : t.info.hasError = true)
    (source : ByteArray) (p : Pass α) :
    (checkDamage (t.damage? source)).run p = .error (t.culprit.complaint source) p := by
  rw [damage?, if_pos h, complaint]
  cases htext : t.culprit.text source <;> rfl

theorem run_checkDamage_of_not_hasError {t : SyntaxTree} (h : ¬t.info.hasError = true)
    (source : ByteArray) (p : Pass α) : (checkDamage (t.damage? source)).run p = .ok () p := by
  rw [damage?, if_neg h]
  rfl

/-- **The search for faults.**  Whatever the flags of a tree, the loop ends, with what the search by
recursion finds; that is nothing exactly if flags lead to no fault.  If the flags tell the truth, a
tree is reported exactly if it holds a fault, and the report is about the first one in document
order. -/
theorem searchFault_finds_first (t : SyntaxTree) :
    (∀ n, t.size < n → searchRounds n [t] = some (searchFault [t])) ∧
    searchFault [t] = t.firstFault ∧
    (searchFault [t] = none ↔ ∀ d, t.Flagged d → d.isFault = false) ∧
    (t.Consistent → ∀ (source : ByteArray) (p : Pass α),
      ((∃ f q, (checkDamage (t.damage? source)).run p = .error f q) ↔
        ∃ d, t.Holds d ∧ d.isFault = true) ∧
      ∀ d, t.preorder.find? isFault = some d →
        (checkDamage (t.damage? source)).run p = .error (d.complaint source) p) := by
  have hsearch := searchFault_singleton t
  refine ⟨fun n hn => searchRounds_eq (by simpa [sizeAll] using hn), hsearch,
    hsearch ▸ firstFault_eq_none_iff, fun h source p => ⟨?_, fun d hd => ?_⟩⟩
  · rw [← h.hasError_iff]
    by_cases herror : t.info.hasError = true
    · rw [run_checkDamage_of_hasError herror]
      simp [herror]
    · rw [run_checkDamage_of_not_hasError herror]
      simp [herror]
  · have hfault : t.info.hasError = true :=
      h.hasError_iff.2 ⟨d, mem_preorder.1 (List.mem_of_find?_eq_some hd), List.find?_some hd⟩
    have hculprit : t.culprit = d := by
      rw [culprit, hsearch, firstFault_eq_find? h, hd, Option.getD_some]
    rw [run_checkDamage_of_hasError hfault, hculprit]

namespace FaultyTree

def leaf (kind : String) (start stop : Nat) (missing : Bool) : SyntaxTree :=
  .node ⟨kind, start, stop, 0, start, true, missing || kind == "ERROR", missing, none⟩ []

/-- The brace that a block lacks. -/
def brace : SyntaxTree := leaf "\x7d" 4 4 true

/-- The tree of a name, a block that is not closed, and a parenthesis that nothing opens. -/
def root : SyntaxTree :=
  .node ⟨"program", 0, 6, 0, 0, true, true, false, none⟩
    [leaf "identifier" 0 1 false,
      .node ⟨"statement_block", 2, 4, 0, 2, true, true, false, none⟩
        [leaf "identifier" 3 4 false, brace],
      leaf "ERROR" 5 6 false]

/-- Of two faults the one that stands first is found, though the other is nearer to the root. -/
theorem finds_missing_brace :
    let source := "a \x7bb )".toUTF8
    let p : Pass Unit := .start (.empty [])
    root.Consistent ∧ searchRounds 7 [root] = some (some brace) ∧
      (checkDamage (root.damage? source)).run p = .error (.refused ⟨.grammar "", ⟨1, 4⟩⟩) p := by
  intro source p
  have hconsistent : root.Consistent := by decide +kernel
  have hfirst : root.preorder.find? isFault = some brace := by rfl
  have hcomplaint : brace.complaint source = .refused ⟨.grammar "", ⟨1, 4⟩⟩ := by decide +kernel
  obtain ⟨hrounds, hsearch, -, hcheck⟩ := searchFault_finds_first (α := Unit) root
  refine ⟨hconsistent, ?_, ?_⟩
  · rw [hrounds 7 (by decide), hsearch, firstFault_eq_find? hconsistent, hfirst]
  · rw [(hcheck hconsistent source p).2 brace hfirst, hcomplaint]

end FaultyTree

end SyntaxTree

end StackScript
