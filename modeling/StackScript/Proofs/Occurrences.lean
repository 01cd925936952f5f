import Mathlib.Data.List.Forall2
import StackScript.Proofs.ScopeHistory

/-!
# Occurrences of variables

Which variable a name refers to can be said by the declarations before it alone: it is the last one
declared under that name.  An `Occurrence` keeps the names declared up to a place, and
`Script.occurrences` lists the places in the order of the code, where a value given to several names
counts once for each of them.

`Script.accesses_of_plan` says that the instructions for variables are those of the occurrences, one
by one, so a pass resolves every name as it should.
-/

namespace StackScript

variable {α : Type}

/-! ### The occurrences of a script -/

/-- A place where a script reads a variable, or gives a value to the one that it binds. -/
structure Occurrence where
  /-- The way of access. -/
  opcode : Opcode
  name : String
  /-- The names of the variables declared up to there, by their slots. -/
  declared : List String

/-- An occurrence refers to the last variable declared under its name. -/
def Occurrence.RefersTo (o : Occurrence) (slot : Nat) : Prop :=
  IsGreatest {k | o.declared[k]? = some o.name} slot

/-- The variables that an expression reads. -/
def Expr.occurrences (declared : List String) : Expr → List Occurrence
  | .identifier _ name => name.toOption.toList.map fun name => ⟨.loadContext, name, declared⟩
  | .parenthesized _ inner => inner.occurrences declared
  | .binary _ left right _ => left.occurrences declared ++ right.occurrences declared
  | .number .. | .boolean .. | .string .. | .unsupported .. | .broken _ => []

/-- The occurrences in a declaration of names, each of which is given the value, if there is one.
The value may mention the name itself. -/
def bindingOccurrences (value : Option Expr) : List String → List String → List Occurrence
  | _, [] => []
  | declared, name :: names =>
    let declared := declared ++ [name]
    (value.toList.flatMap fun e => e.occurrences declared ++ [⟨.setContext, name, declared⟩]) ++
      bindingOccurrences value declared names

/-- The occurrences in declarators. -/
def Declarator.occurrencesAll : List String → List Declarator → List Occurrence
  | _, [] => []
  | declared, d :: ds =>
    bindingOccurrences d.value declared d.target.names ++
      Declarator.occurrencesAll (declared ++ d.target.names) ds

mutual

/-- The occurrences in a statement; both branches of a condition declare their names. -/
def Stmt.occurrences (declared : List String) : Stmt → List Occurrence
  | .expression _ value => value.occurrences declared
  | .lexical _ _ declarators => Declarator.occurrencesAll declared declarators
  | .ifThen _ test body => test.occurrences declared ++ body.occurrences declared
  | .ifElse _ test body alternative =>
    test.occurrences declared ++ (body.occurrences declared ++
      alternative.occurrences (declared ++ body.names))
  | .block _ body => Stmt.occurrencesAll declared body
  | .foreign .. | .empty _ | .unsupported .. | .broken _ => []

/-- The occurrences in several statements. -/
def Stmt.occurrencesAll (declared : List String) : List Stmt → List Occurrence
  | [] => []
  | t :: ts => t.occurrences declared ++ Stmt.occurrencesAll (declared ++ t.names) ts

end

/-- The occurrences in a script. -/
def Script.occurrences (script : Script) (declared : List String) : List Occurrence :=
  Stmt.occurrencesAll declared script.stmts

theorem bindingOccurrences_append (value : Option Expr) (declared names more : List String) :
    bindingOccurrences value declared (names ++ more) =
      bindingOccurrences value declared names ++
        bindingOccurrences value (declared ++ names) more := by
  induction names generalizing declared with
  | nil => simp [bindingOccurrences]
  | cons name names ih => simp [bindingOccurrences, ih]

/-! ### Instructions for variables -/

/-- The operations whose operand is a slot. -/
def Opcode.isAccess : Opcode → Bool
  | loadContext | setContext => true
  | _ => false

/-- The instructions of a plan for variables. -/
def Plan.accesses : Plan → List Instruction
  | load slot => [.loadContext slot]
  | store slot => [.setContext slot]
  | andThen a b | branch a b => a.accesses ++ b.accesses
  | skip | halt | push _ | operate _ => []

theorem Plan.filter_isAccess_code (a : Plan) (offset : Nat) (cs : List Constant) :
    (a.code offset cs).filter (fun i => i.opcode.isAccess) = a.accesses := by
  induction a generalizing offset cs with
  | skip | halt | push _ | load _ | store _ => rfl
  | operate op => cases op <;> rfl
  | andThen a b iha ihb => rw [code, List.filter_append, iha, ihb, accesses]
  | branch a b iha ihb =>
    rw [code_branch]
    simp only [List.filter_append, iha, ihb]
    rfl

/-- The instruction is for the variable that the occurrence refers to, and the scope has the name of
the occurrence for it. -/
def Instruction.Accesses (last : Scope α) (i : Instruction) (o : Occurrence) : Prop :=
  i.opcode = o.opcode ∧ ∃ slot : Nat, i.operand? = some (slot : Int) ∧ o.RefersTo slot ∧
    last.name? slot = some o.name

section Accesses

variable {scope last : Scope α} {a : Plan}

theorem Scope.Coherent.accesses (h : scope.Coherent) (hnames : scope.names <+: last.names)
    {name : String} {slot : Nat} (hslot : scope.slot? name = some slot) {i : Instruction}
    {op : Opcode} (hop : i.opcode = op) (hoperand : i.operand? = some (slot : Int)) :
    i.Accesses last ⟨op, name, scope.names⟩ := by
  refine ⟨hop, slot, hoperand, h.latest name slot hslot, Scope.name?_of_prefix hnames ?_⟩
  rw [Scope.name?_natCast, h.name_of_slot? hslot]

theorem Expr.Plans.accesses {e : Expr} (h : e.Plans scope a) (hscope : scope.Coherent)
    (hnames : scope.names <+: last.names) :
    List.Forall₂ (Instruction.Accesses last) a.accesses (e.occurrences scope.names) := by
  induction h with
  | number | boolean | string => exact .nil
  | identifier hslot => exact .cons (hscope.accesses hnames hslot rfl rfl) .nil
  | parenthesized _ ih => exact ih
  | binary _ _ _ ihl ihr => simpa [Plan.accesses, occurrences] using List.rel_append ihl ihr

theorem Plan.Binds.accesses {value : Option Expr} {bound : List String}
    (h : a.Binds value scope bound) (hscope : scope.Coherent)
    (hnames : scope.names ++ bound <+: last.names) :
    List.Forall₂ (Instruction.Accesses last) a.accesses
      (bindingOccurrences value scope.names bound) := by
  induction h with
  | nothing | declare => exact .nil
  | @assign e scope name a he =>
    -- The name is defined before the value is computed, so it refers to the same variable in both.
    have hinner := hscope.define name none
    have hslot : (scope.define name none).2.slot? name = some scope.slotCount := by
      simp [Scope.slot?_define]
    rw [← scope.names_define name none] at hnames
    have hvalue := he.accesses hinner hnames
    have hstore : (Instruction.setContext scope.slotCount).Accesses last
        ⟨.setContext, name, (scope.define name none).2.names⟩ :=
      hinner.accesses hnames hslot rfl rfl
    rw [Scope.names_define] at hvalue hstore
    simpa [Plan.accesses, bindingOccurrences] using List.rel_append hvalue (.cons hstore .nil)
  | @andThen value scope bound more a b _ _ iha ihb =>
    rw [bindingOccurrences_append, Plan.accesses]
    refine List.rel_append (iha hscope ?_) ?_
    · rw [← List.append_assoc] at hnames
      exact (List.prefix_append _ _).trans hnames
    · have hrest := ihb (hscope.defineAll bound)
      rw [Scope.names_defineAll, List.append_assoc] at hrest
      exact hrest hnames

theorem Declarator.PlansAll.accesses {ds : List Declarator} (h : Declarator.PlansAll scope ds a)
    (hscope : scope.Coherent)
    (hnames : scope.names ++ (ds.flatMap fun d => d.target.names) <+: last.names) :
    List.Forall₂ (Instruction.Accesses last) a.accesses
      (Declarator.occurrencesAll scope.names ds) := by
  induction h with
  | nil => exact .nil
  | @cons scope d ds a b hd _ ih =>
    rw [List.flatMap_cons, ← List.append_assoc] at hnames
    refine List.rel_append (hd.accesses hscope ((List.prefix_append _ _).trans hnames)) ?_
    have hrest := ih (hscope.defineAll d.target.names)
    rw [Scope.names_defineAll] at hrest
    exact hrest hnames

variable {halts : Bool}

mutual

theorem Stmt.Plans.accesses {scope : Scope α} {t : Stmt} {a : Plan}
    (h : Stmt.Plans halts scope t a) (hscope : scope.Coherent)
    (hnames : scope.names ++ t.names <+: last.names) :
    List.Forall₂ (Instruction.Accesses last) a.accesses (t.occurrences scope.names) := by
  have hbefore : scope.names <+: last.names := (List.prefix_append _ _).trans hnames
  cases h with
  | expression h => exact h.accesses hscope hbefore
  | lexical h => exact h.accesses hscope hnames
  | ifThen ht hb =>
    have hbody := hb.accesses hscope hnames
    simpa [Plan.accesses, occurrences] using List.rel_append (ht.accesses hscope hbefore) hbody
  | @ifElse _ _ _ body alternative a b c ht hb hc =>
    rw [Stmt.names, ← List.append_assoc] at hnames
    have hbody := hb.accesses hscope ((List.prefix_append _ _).trans hnames)
    rw [← Scope.names_defineAll] at hnames
    have halternative := hc.accesses (hscope.defineAll body.names) hnames
    rw [Scope.names_defineAll] at halternative
    exact List.rel_append (ht.accesses hscope hbefore) (List.rel_append hbody halternative)
  | empty => split <;> exact .nil
  | block h => exact h.accesses hscope hnames

theorem Stmt.PlansAll.accesses {scope : Scope α} {ts : List Stmt} {a : Plan}
    (h : Stmt.PlansAll halts scope ts a) (hscope : scope.Coherent)
    (hnames : scope.names ++ Stmt.namesAll ts <+: last.names) :
    List.Forall₂ (Instruction.Accesses last) a.accesses
      (Stmt.occurrencesAll scope.names ts) := by
  cases h with
  | nil => exact .nil
  | @cons _ t ts a b ht hts =>
    rw [Stmt.namesAll, ← List.append_assoc] at hnames
    have hfirst := ht.accesses hscope ((List.prefix_append _ _).trans hnames)
    rw [← Scope.names_defineAll] at hnames
    have hrest := hts.accesses (hscope.defineAll t.names) hnames
    rw [Scope.names_defineAll] at hrest
    exact List.rel_append hfirst hrest

end

/-- **The instructions for variables are those of the occurrences**, one by one, with slots that
have the names of the occurrences behind the script. -/
theorem Script.accesses_of_plan {s : Settings} {script : Script} (h : script.plan s scope = .ok a)
    (hscope : scope.Coherent) :
    List.Forall₂ (Instruction.Accesses (scope.defineAll script.names)) a.accesses
      (script.occurrences scope.names) := by
  refine (Script.plansAll_of_plan h).accesses hscope ?_
  rw [Scope.names_defineAll]
  exact List.prefix_refl _

end Accesses

end StackScript
