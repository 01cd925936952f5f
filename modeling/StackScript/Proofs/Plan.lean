import StackScript.Compile.Pass
import StackScript.Proofs.InstructionFormat
import StackScript.Proofs.PoolScan

/-!
# Plans

A plan is code whose jumps are still branches and whose constants are still values, so that it
does not depend on where it will stand.  It can hold no jump that leads astray: whatever a plan
says becomes one run of instructions once its offset and the constants before it are known
(`Plan.code`), and as many words as it was planned to take (`Plan.length_encode_code`).

* `Plan.code`, `Plan.pool` : the instructions of a plan, and the constants behind it;
* `Plan.program` : the program of a plan that stands alone, a halt added;
* `Planned` : a plan, or why there is none.
-/

namespace StackScript

/-- The operations that take two values from the stack. -/
inductive Operation where
  | add
  | sub
  | mul
  | div
  | eq
deriving DecidableEq, Repr

namespace Operation

/-- The instruction of an operation. -/
def instruction : Operation → Instruction
  | add => .add
  | sub => .sub
  | mul => .mul
  | div => .div
  | eq => .eq

/-- The operation that a sign between two expressions stands for. -/
def ofSign? : String → Option Operation
  | "+" => some add
  | "-" => some sub
  | "*" => some mul
  | "/" => some div
  | "===" => some eq
  | _ => none

end Operation

/-- Code with branches in place of jumps and values in place of indices. -/
inductive Plan where
  | skip
  | halt
  | push (c : Constant)
  | load (slot : Nat)
  | store (slot : Nat)
  | operate (op : Operation)
  | andThen (first second : Plan)
  /-- Take a value from the stack, and go on with the alternative if it is false. -/
  | branch (body alternative : Plan)

namespace Plan

/-- Number of words. -/
def width : Plan → Nat
  | skip => 0
  | halt | operate _ => 1
  | push _ | load _ | store _ => 2
  | andThen a b => a.width + b.width
  | branch a b => 2 + a.width + 2 + b.width

/-- The constants behind a plan, given those before it. -/
def pool (cs : List Constant) : Plan → List Constant
  | push c => c.insertInto cs
  | andThen a b | branch a b => b.pool (a.pool cs)
  | skip | halt | load _ | store _ | operate _ => cs

/-- The instructions of a plan that stands at an offset, behind the given constants.  The jump over
the body leads to the alternative, the jump behind the body to the end. -/
def code (offset : Nat) (cs : List Constant) : Plan → List Instruction
  | skip => []
  | halt => [.halt]
  | push c => [.const (c.placeIn cs)]
  | load slot => [.loadContext slot]
  | store slot => [.setContext slot]
  | operate op => [op.instruction]
  | andThen a b => a.code offset cs ++ b.code (offset + a.width) (a.pool cs)
  | branch a b =>
    let start := offset + 2 + a.width + 2
    .jumpIfFalse start :: a.code (offset + 2) cs ++
      .jump (start + b.width : Nat) :: b.code start (a.pool cs)

/-- The four parts of a branch. -/
theorem code_branch (a b : Plan) (offset : Nat) (cs : List Constant) :
    let start := offset + 2 + a.width + 2
    (branch a b).code offset cs = [.jumpIfFalse start] ++ (a.code (offset + 2) cs ++
      ([.jump (start + b.width : Nat)] ++ b.code start (a.pool cs))) := by
  simp [code]

@[simp] theorem length_encode_code (a : Plan) (offset : Nat) (cs : List Constant) :
    (Code.encode (a.code offset cs)).length = a.width := by
  induction a generalizing offset cs with
  | skip | halt | push _ | load _ | store _ => rfl
  | operate op => cases op <;> rfl
  | andThen a b iha ihb => simp [code, width, iha, ihb]
  | branch a b iha ihb => simp [code, width, iha, ihb, Nat.add_assoc]

/-- Where the four parts of a branch stand. -/
theorem locate_code_branch (a b : Plan) (offset : Nat) (cs : List Constant) :
    let start := offset + 2 + a.width + 2
    Code.locate offset ((branch a b).code offset cs) =
      ⟨offset, .jumpIfFalse start⟩ :: (Code.locate (offset + 2) (a.code (offset + 2) cs) ++
        ⟨offset + 2 + a.width, .jump (start + b.width : Nat)⟩ ::
          Code.locate start (b.code start (a.pool cs))) := by
  simp [code_branch, Code.locate, Code.locate_append]

theorem prefix_pool (a : Plan) (cs : List Constant) : cs <+: a.pool cs := by
  induction a generalizing cs with
  | push c => exact c.prefix_insertInto cs
  | andThen a b iha ihb | branch a b iha ihb => exact (iha cs).trans (ihb _)
  | skip | halt | load _ | store _ | operate _ => exact List.prefix_refl cs

/-- The program of a plan that stands alone. -/
def program (name : String) (a : Plan) : Program :=
  ⟨name, Code.encode (a.code 0 [] ++ [.halt]), a.pool []⟩

theorem decoded_program (name : String) (a : Plan) :
    (a.program name).decoded = ⟨Code.locate 0 (a.code 0 [] ++ [.halt]), none⟩ :=
  Code.decode_encode _

@[simp] theorem length_code_program (name : String) (a : Plan) :
    (a.program name).code.length = a.width + 1 := by
  simp [program]

end Plan

/-- A plan, or the fault that stops a pass. -/
abbrev Planned := Except Fault Plan

namespace Planned

/-- Two plans one after the other; the first fault counts. -/
def join (x y : Planned) : Planned := do return .andThen (← x) (← y)

/-- A branch between two plans; the first fault counts. -/
def fork (x y : Planned) : Planned := do return .branch (← x) (← y)

section Both

variable {x y : Planned} {a : Plan} {f : Fault}

theorem both_eq_ok_iff {g : Plan → Plan → Plan} :
    (do return g (← x) (← y) : Planned) = .ok a ↔
      ∃ b c, x = .ok b ∧ y = .ok c ∧ a = g b c := by
  cases x with
  | error f => simp [bind, Except.bind]
  | ok b =>
    cases y with
    | error f => simp [bind, Except.bind]
    | ok c => simp [bind, Except.bind, pure, Except.pure, eq_comm]

theorem both_eq_error_iff {g : Plan → Plan → Plan} :
    (do return g (← x) (← y) : Planned) = .error f ↔
      x = .error f ∨ ∃ b, x = .ok b ∧ y = .error f := by
  cases x with
  | error f' => simp [bind, Except.bind]
  | ok b =>
    cases y with
    | error f' => simp [bind, Except.bind]
    | ok c => simp [bind, Except.bind, pure, Except.pure]

theorem join_eq_ok_iff : join x y = .ok a ↔ ∃ b c, x = .ok b ∧ y = .ok c ∧ a = .andThen b c :=
  both_eq_ok_iff

theorem join_eq_error_iff : join x y = .error f ↔ x = .error f ∨ ∃ b, x = .ok b ∧ y = .error f :=
  both_eq_error_iff

theorem fork_eq_ok_iff : fork x y = .ok a ↔ ∃ b c, x = .ok b ∧ y = .ok c ∧ a = .branch b c :=
  both_eq_ok_iff

theorem fork_eq_error_iff : fork x y = .error f ↔ x = .error f ∨ ∃ b, x = .ok b ∧ y = .error f :=
  both_eq_error_iff

end Both

end Planned

end StackScript
