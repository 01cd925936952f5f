import Mathlib.Logic.Function.Basic
import Mathlib.Logic.Relation
import StackScript.Proofs.InstructionFormat

/-!
# The stack machine

The machine that programs are written for has an instruction offset, a stack of values and a store
of slots.  What the values are and what the operations compute is left open (`Semantics`).

* `Semantics.step` : one step of a program; the machine is stuck where there is no instruction,
  where an operand refers to nothing, and where a value is missing on the stack;
* `Semantics.Reaches` : any number of steps;
* `Semantics.not_stuck_of_halted` : a run that halts was never stuck, and cannot take another way.
-/

namespace StackScript

/-- What the machine leaves open: the values of constants, the operations on two values, and which
values are false. -/
structure Semantics (V : Type) where
  constant : Constant → V
  add : V → V → V
  sub : V → V → V
  mul : V → V → V
  div : V → V → V
  eq : V → V → V
  falsy : V → Bool

/-- What a program works on. -/
structure Memory (V : Type) where
  /-- The values pushed and not yet taken, the last one first. -/
  stack : List V
  /-- The values of the slots. -/
  store : Nat → V

namespace Memory

variable {V : Type}

/-- Push a value. -/
def push (mem : Memory V) (v : V) : Memory V := { mem with stack := v :: mem.stack }

/-- Give a slot another value. -/
def assign (mem : Memory V) (slot : Nat) (v : V) : Memory V :=
  { mem with store := Function.update mem.store slot v }

end Memory

/-- A machine state. -/
structure MachineState (V : Type) where
  /-- The offset of the next instruction. -/
  pc : Nat
  memory : Memory V

/-- What a step leads to. -/
inductive Status (V : Type) where
  | running (σ : MachineState V)
  | halted (σ : MachineState V)
  | stuck

@[simp] theorem toNat?_natCast (n : Nat) : (n : Int).toNat? = some n := rfl

/-- The instruction at an offset. -/
def Code.fetch? (code : List Int) (pc : Nat) : Option Instruction := do
  let op ← Opcode.ofWord? (← code[pc]?)
  match op.form with
  | .bare i => some i
  | .withOperand f => return f (← code[pc + 1]?)

namespace Semantics

variable {V : Type} (m : Semantics V)

/-- Go to a target. -/
def goto (t : Int) (mem : Memory V) : Status V :=
  match t.toNat? with
  | some pc => .running ⟨pc, mem⟩
  | none => .stuck

/-- Take the right value, then the left one, and push what comes out. -/
def combine (f : V → V → V) (σ : MachineState V) : Status V :=
  match σ.memory.stack with
  | right :: left :: rest =>
    .running ⟨σ.pc + 1, { σ.memory with stack := f left right :: rest }⟩
  | _ => .stuck

/-- Carry out an instruction. -/
def execute (constants : List Constant) (i : Instruction) (σ : MachineState V) : Status V :=
  match i with
  | .halt => .halted σ
  | .const k =>
    match k.toNat?.bind (constants[·]?) with
    | some c => .running ⟨σ.pc + 2, σ.memory.push (m.constant c)⟩
    | none => .stuck
  | .add => combine m.add σ
  | .sub => combine m.sub σ
  | .mul => combine m.mul σ
  | .div => combine m.div σ
  | .eq => combine m.eq σ
  | .jump t => goto t σ.memory
  | .jumpIfFalse t =>
    match σ.memory.stack with
    | v :: rest =>
      let mem := { σ.memory with stack := rest }
      if m.falsy v then goto t mem else .running ⟨σ.pc + 2, mem⟩
    | [] => .stuck
  | .loadContext slot =>
    match slot.toNat? with
    | some slot => .running ⟨σ.pc + 2, σ.memory.push (σ.memory.store slot)⟩
    | none => .stuck
  | .setContext slot =>
    match slot.toNat?, σ.memory.stack with
    | some slot, v :: rest =>
      .running ⟨σ.pc + 2, { σ.memory with stack := rest }.assign slot v⟩
    | _, _ => .stuck

/-- One step of a program. -/
def step (p : Program) (σ : MachineState V) : Status V :=
  match Code.fetch? p.code σ.pc with
  | some i => m.execute p.constants i σ
  | none => .stuck

/-- The machine goes from one state to another in some number of steps. -/
def Reaches (p : Program) : MachineState V → MachineState V → Prop :=
  Relation.ReflTransGen fun σ τ => m.step p σ = .running τ

/-- The machine stops at a halt. -/
def HaltsAt (p : Program) (σ : MachineState V) : Prop := m.step p σ = .halted σ

variable {m}

/-- **A run that halts was never stuck**: there is one way to go from every state. -/
theorem not_stuck_of_halted {p : Program} {σ τ ρ : MachineState V} (h : m.Reaches p σ τ)
    (hτ : m.HaltsAt p τ) (hρ : m.Reaches p σ ρ) : m.step p ρ ≠ .stuck := by
  have hunique : Relator.RightUnique fun σ τ => m.step p σ = .running τ := by
    intro a b c hb hc
    rw [hb] at hc
    injection hc
  have hmove : ∀ ρ', m.step p ρ = .running ρ' → m.step p ρ ≠ .stuck := by
    intro ρ' h' hs
    rw [h'] at hs
    injection hs
  -- Of two states of one run, one comes before the other.
  rcases Relation.ReflTransGen.total_of_right_unique hunique h hρ with h' | h'
  · -- Nothing follows a halt.
    rcases h'.cases_head with rfl | ⟨c, hc, -⟩
    · rw [hτ]; simp
    · rw [HaltsAt, hc] at hτ
      injection hτ
  · rcases h'.cases_head with rfl | ⟨c, hc, -⟩
    · rw [hτ]; simp
    · exact hmove c hc

end Semantics

namespace Code

/-- Instructions stand in a code at an offset. -/
def Loaded (code : List Int) (offset : Nat) (is : List Instruction) : Prop :=
  ∃ before after, code = before ++ encode is ++ after ∧ before.length = offset

theorem Loaded.left {code : List Int} {offset : Nat} {is js : List Instruction}
    (h : Loaded code offset (is ++ js)) : Loaded code offset is := by
  obtain ⟨before, after, rfl, rfl⟩ := h
  exact ⟨before, encode js ++ after, by simp, rfl⟩

theorem Loaded.right {code : List Int} {offset : Nat} {is js : List Instruction}
    (h : Loaded code offset (is ++ js)) : Loaded code (offset + (encode is).length) js := by
  obtain ⟨before, after, rfl, rfl⟩ := h
  exact ⟨before ++ encode is, after, by simp, by simp⟩

theorem Loaded.fetch? {code : List Int} {offset : Nat} {i : Instruction} {is : List Instruction}
    (h : Loaded code offset (i :: is)) : fetch? code offset = some i := by
  obtain ⟨before, after, rfl, rfl⟩ := h
  obtain ⟨hf, ho⟩ | ⟨f, x, hf, ho, rfl⟩ := i.form_opcode
  · simp [Code.fetch?, Instruction.words, ho, Opcode.ofWord?_word, hf]
  · simp [Code.fetch?, Instruction.words, ho, Opcode.ofWord?_word, hf]

end Code

/-- A step at a place where an instruction is known to stand. -/
theorem Semantics.step_of_loaded {V : Type} {m : Semantics V} {p : Program} {σ : MachineState V}
    {i : Instruction} {is : List Instruction} (h : Code.Loaded p.code σ.pc (i :: is)) :
    m.step p σ = m.execute p.constants i σ := by
  rw [step, h.fetch?]

end StackScript
