import Mathlib.Algebra.BigOperators.Group.List.Basic
import Mathlib.Algebra.Ring.Nat
import StackScript.Proofs.Operations

/-!
# Statistics of operations

The counts of operations in a compiled program account for the tree that it was compiled from, node
by node (`SyntaxTree.Accounts`): a condition has two jumps, a literal one constant, an operator one
operation, and what stands in the value of a declarator counts once for each name that is given the
value.  Operand words are counted nowhere, though many of them look like operations.

* `Opcode.countIn_foldl` : a table of counts says how often each operation occurs;
* `SyntaxTree.accounts_count` : how often each operation occurs among those of a tree;
* `Script.opcodeCounts_of_compiled` : hence the statistics of every compiled program.
-/

namespace StackScript

variable {α : Type}

/-! ### Tables of counts -/

namespace Opcode

/-- How often an operation occurs by a table of counts. -/
def countIn (counts : List (Opcode × Nat)) (op : Opcode) : Nat := (counts.lookup op).getD 0

theorem countIn_cons (o : Opcode) (n : Nat) (counts : List (Opcode × Nat)) (op : Opcode) :
    countIn ((o, n) :: counts) op = if op = o then n else countIn counts op := by
  rw [countIn, List.lookup_cons]
  by_cases h : op = o
  · simp [h]
  · rw [beq_false_of_ne h, if_neg h, countIn]

theorem countIn_countOne (counts : List (Opcode × Nat)) (o op : Opcode) :
    countIn (Program.countOne counts o) op = countIn counts op + if op = o then 1 else 0 := by
  induction counts with
  | nil =>
    rw [Program.countOne, countIn_cons]
    simp [countIn]
  | cons entry counts ih =>
    obtain ⟨first, n⟩ := entry
    rw [Program.countOne]
    by_cases hfirst : first = o
    · subst hfirst
      rw [if_pos rfl, countIn_cons, countIn_cons]
      split <;> rfl
    · rw [if_neg hfirst, countIn_cons, countIn_cons, ih]
      by_cases hop : op = first
      · subst hop
        simp [hfirst]
      · simp [hop]

theorem countIn_foldl (ops : List Opcode) (counts : List (Opcode × Nat)) (op : Opcode) :
    countIn (ops.foldl Program.countOne counts) op = countIn counts op + ops.count op := by
  induction ops generalizing counts with
  | nil => rfl
  | cons o ops ih =>
    rw [List.foldl_cons, ih, countIn_countOne, List.count_cons]
    simp only [beq_iff_eq, eq_comm (a := op)]
    omega

/-- Each operation takes its width as often as it occurs. -/
theorem sum_count_mul_width (ops : List Opcode) :
    (all.map fun op => ops.count op * op.width).sum = (ops.map width).sum := by
  induction ops with
  | nil => rfl
  | cons o ops ih =>
    have hone : (all.map fun op => if o = op then op.width else 0).sum = o.width := by
      cases o <;> rfl
    have hsplit (op : Opcode) : (o :: ops).count op * op.width =
        ops.count op * op.width + if o = op then op.width else 0 := by
      rw [List.count_cons, Nat.add_mul]
      simp
    rw [List.map_congr_left fun op _ => hsplit op, List.sum_map_add, ih, hone, List.map_cons,
      List.sum_cons, Nat.add_comm]

end Opcode

theorem Code.sum_width (is : List Instruction) :
    ((is.map Instruction.opcode).map Opcode.width).sum = (Code.encode is).length := by
  induction is with
  | nil => rfl
  | cons i is ih =>
    rw [List.map_cons, List.map_cons, List.sum_cons, ih, Code.encode_cons, List.length_append,
      Instruction.length_words, Instruction.width]

/-- The statistics of a plan count its operations and the final halt, and operand words make up the
rest of the code. -/
theorem Plan.opcodeCounts_program (name : String) (a : Plan) :
    ∃ counts, (a.program name).opcodeCounts = .ok counts ∧
      (∀ op, Opcode.countIn counts op = (a.opcodes ++ [Opcode.halt]).count op) ∧
      (Opcode.all.map fun op => Opcode.countIn counts op * op.width).sum =
        (a.program name).code.length := by
  have hopcodes : (a.code 0 [] ++ [Instruction.halt]).map Instruction.opcode =
      a.opcodes ++ [Opcode.halt] := by
    rw [List.map_append, map_opcode_code]
    rfl
  have hfold : (Code.locate 0 (a.code 0 [] ++ [Instruction.halt])).foldl
      (fun cs l => Program.countOne cs l.instruction.opcode) [] =
        (a.opcodes ++ [Opcode.halt]).foldl Program.countOne [] := by
    rw [← hopcodes, List.foldl_map]
    conv_rhs => rw [← Code.map_instruction_locate 0 (a.code 0 [] ++ [Instruction.halt])]
    rw [List.foldl_map]
  have hcount (op : Opcode) :
      Opcode.countIn ((a.opcodes ++ [Opcode.halt]).foldl Program.countOne []) op =
        (a.opcodes ++ [Opcode.halt]).count op := by
    rw [Opcode.countIn_foldl]
    exact Nat.zero_add _
  refine ⟨_, by rw [Program.opcodeCounts, decoded_program, hfold], hcount, ?_⟩
  simp only [hcount]
  rw [Opcode.sum_count_mul_width, ← hopcodes, Code.sum_width]
  rfl

/-! ### What a tree accounts for -/

/-- The sign of an operation between two expressions. -/
def Operation.sign : Operation → String
  | add => "+"
  | sub => "-"
  | mul => "*"
  | div => "/"
  | eq => "==="

theorem Operation.ofSign?_eq_some_iff {sign : String} {op : Operation} :
    ofSign? sign = some op ↔ sign = op.sign := by
  constructor
  · intro h
    unfold ofSign? at h
    split at h <;> cases h <;> rfl
  · rintro rfl
    cases op <;> rfl

theorem Operation.opcode_injective {op op' : Operation}
    (h : op.instruction.opcode = op'.instruction.opcode) : op = op' := by
  cases op <;> cases op' <;> first | rfl | cases h

/-- None of the other operations is one between two values. -/
theorem Operation.ne_opcode (o : Operation) {op : Opcode}
    (hop : op ∈ [Opcode.const, .loadContext, .jump, .jumpIfFalse, .halt, .setContext]) :
    op ≠ o.instruction.opcode := by
  rintro rfl
  cases o <;> simp [instruction, Instruction.opcode] at hop

/-- The sign of an operator stands for one of the operations on two values. -/
theorem exists_operation_of_signOpcode? {sign : Lexeme} {op : Opcode}
    (h : signOpcode? sign = some op) : ∃ o : Operation, op = o.instruction.opcode := by
  obtain ⟨o, -, rfl⟩ := Option.map_eq_some_iff.1 h
  exact ⟨o, rfl⟩

theorem signOpcode?_eq_some_iff {sign : Lexeme} {op : Operation} :
    signOpcode? sign = some op.instruction.opcode ↔ sign = .ok op.sign := by
  cases sign with
  | error why => simp [signOpcode?, Except.toOption]
  | ok text =>
    simp only [signOpcode?, Except.toOption, Option.bind_some, Option.map_eq_some_iff,
      Except.ok.injEq, Operation.ofSign?_eq_some_iff]
    constructor
    · rintro ⟨op', rfl, hop⟩
      rw [Operation.opcode_injective hop]
    · rintro rfl
      exact ⟨op, rfl, rfl⟩

namespace SyntaxTree

/-- Expressions with an operator of the given sign. -/
def isBinary (source : ByteArray) (sign : String) (t : SyntaxTree) : Bool :=
  t.kind == "binary_expression" &&
    (fieldText source "operator" t.children).toOption == some sign

/-- The counts of operations that the nodes of a tree account for.  Expressions and bound names are
counted as they are compiled, so a node in the value of a declarator counts once for each name of
its pattern. -/
structure Accounts (source : ByteArray) (root : SyntaxTree) (halts : Bool) (count : Opcode → Nat) :
    Prop where
  jump : count .jump = root.allStatements.countP (·.kind == "if_statement")
  jumpIfFalse : count .jumpIfFalse = root.allStatements.countP (·.kind == "if_statement")
  setContext : count .setContext = (root.bindings source).countP Binding.hasValue
  const : count .const = (root.allExpressions source).countP isLiteral
  loadContext : count .loadContext =
    (root.allExpressions source).countP (·.kind == "identifier")
  operation : ∀ op : Operation, count op.instruction.opcode =
    (root.allExpressions source).countP (isBinary source op.sign)
  halt : count .halt =
    1 + if halts then root.allStatements.countP (·.kind == "empty_statement") else 0

section Counting

variable (source : ByteArray) (halts : Bool)

theorem count_flatMap_eq_countP {f : SyntaxTree → List Opcode} {p : SyntaxTree → Bool} {op : Opcode}
    (h : ∀ t, (f t).count op = if p t then 1 else 0) (ts : List SyntaxTree) :
    (ts.flatMap f).count op = ts.countP p := by
  induction ts with
  | nil => rfl
  | cons t ts ih => rw [List.flatMap_cons, List.count_append, h, ih, List.countP_cons, Nat.add_comm]

theorem count_filterMap_eq_countP {f : SyntaxTree → Option Opcode} {p : SyntaxTree → Bool}
    {op : Opcode} (h : ∀ t, f t = some op ↔ p t = true) (ts : List SyntaxTree) :
    (ts.filterMap f).count op = ts.countP p := by
  induction ts with
  | nil => rfl
  | cons t ts ih =>
    rw [List.filterMap_cons, List.countP_cons, ← ih]
    cases hf : f t with
    | none => simp [← h, hf]
    | some o => simp [List.count_cons, ← h, hf]

/-- The operation of an expression is that of a literal, of a variable or of an operator. -/
theorem opcode?_eq_some_iff (t : SyntaxTree) (op : Opcode) :
    t.opcode? source = some op ↔
      t.isLiteral = true ∧ op = .const ∨ t.kind = "identifier" ∧ op = .loadContext ∨
        ∃ o : Operation, t.isBinary source o.sign = true ∧ op = o.instruction.opcode := by
  have hsign (o : Operation) : t.isBinary source o.sign = true ↔ t.kind = "binary_expression" ∧
      signOpcode? (fieldText source "operator" t.children) = some o.instruction.opcode := by
    rw [signOpcode?_eq_some_iff, isBinary]
    cases fieldText source "operator" t.children <;> simp [Except.toOption]
  simp only [hsign]
  constructor
  · intro h
    unfold opcode? at h
    split_ifs at h with hliteral hidentifier hbinary
    · exact .inl ⟨hliteral, (Option.some.inj h).symm⟩
    · exact .inr (.inl ⟨hidentifier, (Option.some.inj h).symm⟩)
    · obtain ⟨o, rfl⟩ := exists_operation_of_signOpcode? h
      exact .inr (.inr ⟨o, ⟨hbinary, h⟩, rfl⟩)
  · rintro (⟨hliteral, rfl⟩ | ⟨hkind, rfl⟩ | ⟨o, ⟨hkind, ho⟩, rfl⟩)
    · simp [opcode?, hliteral]
    · simp [opcode?, isLiteral, hkind]
    · simp [opcode?, isLiteral, hkind, ho]

theorem count_opcode?_const (ts : List SyntaxTree) :
    (ts.filterMap (opcode? source)).count .const = ts.countP isLiteral := by
  refine count_filterMap_eq_countP (fun t => ?_) ts
  have hne (o : Operation) : Opcode.const ≠ o.instruction.opcode := o.ne_opcode (by decide)
  simp [opcode?_eq_some_iff, hne]

theorem count_opcode?_loadContext (ts : List SyntaxTree) :
    (ts.filterMap (opcode? source)).count .loadContext = ts.countP (·.kind == "identifier") := by
  refine count_filterMap_eq_countP (fun t => ?_) ts
  have hne (o : Operation) : Opcode.loadContext ≠ o.instruction.opcode := o.ne_opcode (by decide)
  simp [opcode?_eq_some_iff, hne]

theorem count_opcode?_operation (o : Operation) (ts : List SyntaxTree) :
    (ts.filterMap (opcode? source)).count o.instruction.opcode =
      ts.countP (isBinary source o.sign) := by
  refine count_filterMap_eq_countP (fun t => ?_) ts
  have hconst : o.instruction.opcode ≠ .const := (o.ne_opcode (by decide)).symm
  have hload : o.instruction.opcode ≠ .loadContext := (o.ne_opcode (by decide)).symm
  rw [opcode?_eq_some_iff]
  constructor
  · rintro (⟨-, h⟩ | ⟨-, h⟩ | ⟨o', hbinary, h⟩)
    · exact absurd h hconst
    · exact absurd h hload
    · rwa [Operation.opcode_injective h]
  · exact fun h => .inr (.inr ⟨o, h, rfl⟩)

/-- Expressions have none of the operations that statements have besides them. -/
theorem count_opcode?_eq_zero {op : Opcode}
    (hop : op ∈ [Opcode.jump, .jumpIfFalse, .halt, .setContext]) (ts : List SyntaxTree) :
    (ts.filterMap (opcode? source)).count op = 0 := by
  rw [List.count_eq_zero, List.mem_filterMap]
  rintro ⟨t, -, ht⟩
  rcases (opcode?_eq_some_iff source t op).1 ht with ⟨-, rfl⟩ | ⟨-, rfl⟩ | ⟨o, -, rfl⟩
  · simp at hop
  · simp at hop
  · refine o.ne_opcode ?_ rfl
    exact List.mem_cons_of_mem _ (List.mem_cons_of_mem _ hop)

theorem count_steps_eq_zero {op : Opcode}
    (hop : op ∉ [Opcode.jump, .jumpIfFalse, .halt, .setContext]) (ts : List SyntaxTree) :
    (ts.flatMap (steps source halts)).count op = 0 := by
  rw [List.count_eq_zero, List.mem_flatMap]
  rintro ⟨t, -, ht⟩
  unfold steps at ht
  split at ht
  · simp_all
  · cases halts <;> simp_all
  · obtain ⟨_, -, rfl⟩ := List.mem_map.1 ht
    simp at hop
  · cases ht

/-- Each of the two jumps of a condition is there once. -/
theorem count_steps_jump {op : Opcode} (h : op = .jump ∨ op = .jumpIfFalse)
    (ts : List SyntaxTree) :
    (ts.flatMap (steps source halts)).count op = ts.countP (·.kind == "if_statement") := by
  refine count_flatMap_eq_countP (fun t => ?_) ts
  unfold steps
  split
  · next hkind => rcases h with rfl | rfl <;> simp [hkind]
  · next hkind => rcases h with rfl | rfl <;> cases halts <;> simp [hkind]
  · next hkind => rcases h with rfl | rfl <;> simp [hkind, List.count_eq_zero]
  · next hkind _ _ => simpa using hkind

theorem count_steps_halt (ts : List SyntaxTree) :
    (ts.flatMap (steps source halts)).count .halt =
      if halts then ts.countP (·.kind == "empty_statement") else 0 := by
  cases halts with
  | false =>
    rw [if_neg Bool.false_ne_true, List.count_eq_zero, List.mem_flatMap]
    rintro ⟨t, -, ht⟩
    unfold steps at ht
    split at ht <;> simp at ht
  | true =>
    refine count_flatMap_eq_countP (fun t => ?_) ts
    unfold steps
    split
    · next hkind => simp [hkind]
    · next hkind => simp [hkind]
    · next hkind => simp [hkind, List.count_eq_zero]
    · next _ hkind _ => simpa using hkind

/-- A name is given a value exactly if its binding has one. -/
theorem length_givenValues (t : SyntaxTree) :
    (t.givenValues source).length = (t.declaratorBindings source).countP Binding.hasValue := by
  have hvalue : ∀ b ∈ t.declaratorBindings source, b.hasValue = (t.part? "value").isSome := by
    intro b hb
    obtain ⟨_, -, rfl⟩ := List.mem_map.1 hb
    rfl
  rw [givenValues]
  generalize t.declaratorBindings source = bs at hvalue
  induction bs with
  | nil => rfl
  | cons b bs ih =>
    obtain ⟨hb, hbs⟩ := List.forall_mem_cons.1 hvalue
    rw [List.flatMap_cons, List.length_append, ih hbs, List.countP_cons, hb]
    cases t.part? "value" <;> simp [Nat.add_comm]

theorem count_steps_setContext (root : SyntaxTree) :
    (root.allStatements.flatMap (steps source halts)).count .setContext =
      (root.bindings source).countP Binding.hasValue := by
  have hdeclarations : root.content.flatMap declarations =
      root.allStatements.filter fun t => t.kind == "lexical_declaration" := by
    rw [allStatements, List.filter_flatMap]
    exact List.flatMap_congr fun t _ => declarations_eq_filter t
  have hgiven (t : SyntaxTree) : (t.declarators.flatMap (givenValues source)).length =
      (t.declarators.flatMap fun d => d.declaratorBindings source).countP Binding.hasValue := by
    induction t.declarators with
    | nil => rfl
    | cons d ds ih =>
      rw [List.flatMap_cons, List.flatMap_cons, List.length_append, List.countP_append, ih,
        length_givenValues]
  rw [bindings, hdeclarations]
  induction root.allStatements with
  | nil => rfl
  | cons t ts ih =>
    rw [List.flatMap_cons, List.count_append, ih, List.filter_cons, steps]
    split
    · next hkind => simp [hkind]
    · next hkind => cases halts <;> simp [hkind]
    · next hkind => simp [hkind, hgiven, List.count_eq_length_filter]
    · next _ _ hkind => simp [if_neg hkind]

/-- **How often each operation occurs among those of a tree**, a final halt added. -/
theorem accounts_count (root : SyntaxTree) :
    root.Accounts source halts fun op =>
      (root.allStatements.flatMap (steps source halts) ++
        (root.allExpressions source).filterMap (opcode? source) ++ [Opcode.halt]).count op := by
  have hoperation (o : Operation) :
      o.instruction.opcode ∉ [Opcode.jump, .jumpIfFalse, .halt, .setContext] := by
    intro h
    exact o.ne_opcode (List.mem_cons_of_mem _ (List.mem_cons_of_mem _ h)) rfl
  exact {
    jump := by simp [count_steps_jump, count_opcode?_eq_zero]
    jumpIfFalse := by simp [count_steps_jump, count_opcode?_eq_zero]
    setContext := by simp [count_steps_setContext, count_opcode?_eq_zero]
    const := by simp [count_steps_eq_zero, count_opcode?_const]
    loadContext := by simp [count_steps_eq_zero, count_opcode?_loadContext]
    operation := fun o => by
      have hhalt : Opcode.halt ≠ o.instruction.opcode := o.ne_opcode (by decide)
      simp [count_steps_eq_zero, hoperation o, count_opcode?_operation, hhalt]
    halt := by simp [count_steps_halt, count_opcode?_eq_zero, Nat.add_comm] }

end Counting

end SyntaxTree

/-! ### Compiled programs -/

namespace Script

theorem accounts_of_plan {source : ByteArray} {root : SyntaxTree} {s : Settings} {scope : Scope α}
    {a : Plan} (h : (Script.ofTree source root).plan s scope = .ok a) :
    root.Accounts source s.emptyHalts fun op => (a.opcodes ++ [Opcode.halt]).count op := by
  have hperm := (opcodes_ofTree source s.emptyHalts root).append_right [Opcode.halt]
  rw [opcodes_of_plan h]
  simp only [hperm.count_eq]
  exact SyntaxTree.accounts_count source s.emptyHalts root

/-- **The statistics of a compiled program account for its tree.**  There are two jumps for each
condition that is reached, one stored value for each name that is bound to one, and a constant, a
variable or an operation for each literal, identifier and operator, where an expression inside the
value of a declarator counts once for each name of its pattern.  Besides the final halt there is one
for each empty statement if these halt, and all operations take the words of the code. -/
theorem opcodeCounts_of_compiled {source : ByteArray} {root : SyntaxTree} {s : Settings}
    {scope : Scope α} {program : Program}
    (h : ((Script.ofTree source root).compile s scope).result = .ok program) :
    ∃ counts, program.opcodeCounts = .ok counts ∧
      root.Accounts source s.emptyHalts (Opcode.countIn counts) ∧
      (Opcode.all.map fun op => Opcode.countIn counts op * op.width).sum = program.code.length := by
  obtain ⟨a, ha, rfl⟩ := compile_eq_ok_iff.1 h
  obtain ⟨counts, hcounts, hcount, hsum⟩ := a.opcodeCounts_program s.name
  refine ⟨counts, hcounts, ?_, hsum⟩
  rw [funext hcount]
  exact accounts_of_plan ha

/-- A source that computes a sum for each of two names, and has an empty statement. -/
def summing : String := "let [a, [b]] = 1 + 2; if (a === b) ; else a"

/-- The four constants are two literals for each of two names.  With empty statements that halt
there are two halts. -/
theorem opcodeCounts_summing :
    let source := summing.toUTF8
    let root := SyntaxTree.ofSource summing
    let settings : Settings := ⟨"main", 200, true⟩
    let scope : Scope Unit := .empty []
    ∃ program counts,
      ((Script.ofTree source root).compile settings scope).result = .ok program ∧
      program.opcodeCounts = .ok counts ∧
      counts = [(.const, 4), (.add, 2), (.setContext, 2), (.loadContext, 3), (.eq, 1),
        (.jumpIfFalse, 1), (.halt, 2), (.jump, 1)] ∧
      root.Accounts source true (Opcode.countIn counts) ∧
      (Opcode.all.map fun op => Opcode.countIn counts op * op.width).sum = program.code.length := by
  intro source root settings scope
  have hplanned : ((Script.ofTree source root).plan settings scope).toOption.bind
      (fun a => (a.program "main").opcodeCounts.toOption) =
        some [(.const, 4), (.add, 2), (.setContext, 2), (.loadContext, 3), (.eq, 1),
          (.jumpIfFalse, 1), (.halt, 2), (.jump, 1)] := by decide +kernel
  clear_value root
  cases hplan : (Script.ofTree source root).plan settings scope with
  | error f =>
    rw [hplan] at hplanned
    cases hplanned
  | ok a =>
    rw [hplan] at hplanned
    have hresult : ((Script.ofTree source root).compile settings scope).result =
        .ok (a.program "main") := compile_eq_ok_iff.2 ⟨a, hplan, rfl⟩
    obtain ⟨counts, hok, haccounts, hsum⟩ := opcodeCounts_of_compiled hresult
    have hcounts : (a.program "main").opcodeCounts.toOption = some _ := hplanned
    rw [hok] at hcounts
    exact ⟨_, counts, hresult, hok, Option.some.inj hcounts, haccounts, hsum⟩

end Script

end StackScript
