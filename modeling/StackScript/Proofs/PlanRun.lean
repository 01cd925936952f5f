import StackScript.Proofs.Machine
import StackScript.Proofs.PlanUses

/-!
# Running a plan

A plan can be run as it stands: branches are taken instead of jumps, and constants are pushed
instead of looked up.  Its code does the same on the machine (`Plan.reaches_code`), wherever it
stands and whatever constants come before it, as long as no constant is the negative zero: that
one shares its entry with the positive zero.
-/

namespace StackScript

variable {V : Type} (m : Semantics V)

/-- What an operation computes. -/
def Operation.apply : Operation → V → V → V
  | .add => m.add
  | .sub => m.sub
  | .mul => m.mul
  | .div => m.div
  | .eq => m.eq

theorem Operation.execute_instruction (op : Operation) (cs : List Constant) (σ : MachineState V) :
    m.execute cs op.instruction σ = Semantics.combine (op.apply m) σ := by
  cases op <;> rfl

/-- What a plan does to the memory; none if it halts or misses a value on the stack. -/
def Plan.exec : Plan → Memory V → Option (Memory V)
  | .skip, mem => some mem
  | .halt, _ => none
  | .push c, mem => some (mem.push (m.constant c))
  | .load slot, mem => some (mem.push (mem.store slot))
  | .store slot, mem =>
    match mem.stack with
    | v :: rest => some ({ mem with stack := rest }.assign slot v)
    | [] => none
  | .operate op, mem =>
    match mem.stack with
    | right :: left :: rest => some { mem with stack := op.apply m left right :: rest }
    | _ => none
  | .andThen a b, mem => a.exec mem >>= b.exec
  | .branch a b, mem =>
    match mem.stack with
    | v :: rest =>
      let mem := { mem with stack := rest }
      if m.falsy v then b.exec mem else a.exec mem
    | [] => none

namespace Plan

variable (mem : Memory V) (v w : V) (a b : Plan)

@[simp] theorem exec_skip : skip.exec m mem = some mem := rfl

@[simp] theorem exec_andThen : (andThen a b).exec m mem = (a.exec m mem).bind (b.exec m) := rfl

@[simp] theorem exec_store_push (slot : Nat) :
    (store slot).exec m (mem.push v) = some (mem.assign slot v) := rfl

@[simp] theorem exec_operate_push (op : Operation) :
    (operate op).exec m ((mem.push v).push w) = some (mem.push (op.apply m v w)) := rfl

@[simp] theorem exec_branch_push :
    (branch a b).exec m (mem.push v) = if m.falsy v then b.exec m mem else a.exec m mem := rfl

end Plan

/-! ### Constants on the machine -/

/-- The constant is not the negative zero. -/
def Constant.Plain (c : Constant) : Prop := c ≠ .number (.zero true)

theorem Constant.Plain.eq_of_shares {c d : Constant} (hc : c.Plain) (hd : d.Plain)
    (h : c.shares d = true) : d = c := by
  have h : c.same d = true := (Bool.and_eq_true_iff.1 h).2
  cases c <;> cases d <;> simp only [same, Bool.false_eq_true, beq_iff_eq] at h
  · rw [Double.eq_of_numEq h (by simpa [Plain] using hc) (by simpa [Plain] using hd)]
  · rw [h]
  · rw [h]

/-- Where no constant is the negative zero, every constant is found where it was put. -/
theorem Constant.Plain.getElem?_placeIn {c : Constant} (hc : c.Plain) {cs ds : List Constant}
    (hpool : c.insertInto cs <+: ds) (hds : ∀ d ∈ ds, d.Plain) :
    ds[c.placeIn cs]? = some c := by
  obtain ⟨d, hd, hshare⟩ := Constant.getElem?_placeIn hpool
  rcases hshare with rfl | hshare
  · exact hd
  · rwa [hc.eq_of_shares (hds d (List.mem_of_getElem? hd)) hshare] at hd

/-! ### Plans on the machine -/

section Reaches

variable {m} {p : Program} {mem mem' : Memory V}

open Code Semantics

/-- Code of one instruction does what that instruction does. -/
theorem Code.Loaded.reaches {pc : Nat} {i : Instruction} {τ : MachineState V}
    (h : Loaded p.code pc [i]) (hstep : m.execute p.constants i ⟨pc, mem⟩ = .running τ) :
    m.Reaches p ⟨pc, mem⟩ τ :=
  .single (by rw [step_of_loaded h, hstep])

/-- **The code of a plan does what the plan does**, and goes on behind itself. -/
theorem Plan.reaches_code {a : Plan} {offset : Nat} {cs : List Constant}
    (hcode : Loaded p.code offset (a.code offset cs)) (hpool : a.pool cs <+: p.constants)
    (hplain : ∀ c ∈ p.constants, c.Plain) {S : Nat → Prop} (huses : a.Uses Constant.Plain S)
    (h : a.exec m mem = some mem') :
    m.Reaches p ⟨offset, mem⟩ ⟨offset + a.width, mem'⟩ := by
  induction a generalizing offset cs mem mem' with
  | skip =>
    obtain rfl : mem = mem' := by simpa [exec] using h
    exact .refl
  | halt => simp [exec] at h
  | push c =>
    obtain rfl : mem.push (m.constant c) = mem' := by simpa [exec] using h
    refine hcode.reaches ?_
    -- Constants that other plans add go behind this one, so its place is the same in the program.
    have hc := Constant.Plain.getElem?_placeIn huses hpool hplain
    simp [execute, hc, width]
  | load slot =>
    obtain rfl : mem.push (mem.store slot) = mem' := by simpa [exec] using h
    exact hcode.reaches (by simp [execute, width])
  | store slot =>
    obtain ⟨stack, store⟩ := mem
    cases stack with
    | nil => simp [exec] at h
    | cons v rest =>
      obtain rfl := Option.some.inj h
      exact hcode.reaches (by simp [execute, width])
  | operate op =>
    obtain ⟨stack, store⟩ := mem
    rcases stack with _ | ⟨right, _ | ⟨left, rest⟩⟩
    · simp [exec] at h
    · simp [exec] at h
    · obtain rfl := Option.some.inj h
      exact hcode.reaches (by simp [op.execute_instruction, combine, width])
  | andThen a b iha ihb =>
    obtain ⟨mid, ha, hb⟩ := Option.bind_eq_some_iff.1 h
    have hright := hcode.right
    rw [length_encode_code] at hright
    have hfirst := iha hcode.left ((b.prefix_pool _).trans hpool) huses.1 ha
    have hsecond := ihb hright hpool huses.2 hb
    rw [Nat.add_assoc] at hsecond
    exact hfirst.trans hsecond
  | branch a b iha ihb =>
    -- The code is a jump over the body, the body, a jump over the alternative, the alternative.
    have hparts := code_branch a b offset cs
    extract_lets start at hparts
    rw [hparts] at hcode
    have hbody : Loaded p.code (offset + 2) _ := hcode.right
    have hjump := hbody.right
    rw [length_encode_code] at hjump
    have halternative : Loaded p.code start _ := hjump.right
    have hend : offset + (branch a b).width = start + b.width := by simp [width, start]; omega
    rw [hend]
    obtain ⟨stack, store⟩ := mem
    cases stack with
    | nil => simp [exec] at h
    | cons v rest =>
      simp only [exec] at h
      cases hv : m.falsy v with
      | true =>
        have hb := ihb halternative hpool huses.2 (by simpa [hv] using h)
        have hskip : m.Reaches p ⟨offset, v :: rest, store⟩ ⟨start, rest, store⟩ :=
          hcode.left.reaches (by simp [execute, hv, goto])
        exact hskip.trans hb
      | false =>
        have ha := iha hbody.left ((b.prefix_pool _).trans hpool) huses.1 (by simpa [hv] using h)
        have henter : m.Reaches p ⟨offset, v :: rest, store⟩ ⟨offset + 2, rest, store⟩ :=
          hcode.left.reaches (by simp [execute, hv])
        have hleave : m.Reaches p ⟨offset + 2 + a.width, mem'⟩ ⟨start + b.width, mem'⟩ :=
          hjump.left.reaches (by simp only [execute, goto, toNat?_natCast])
        exact (henter.trans ha).trans hleave

/-- **A plan that stands alone** runs to the final halt. -/
theorem Plan.reaches_halt {a : Plan} {S : Nat → Prop} (name : String)
    (huses : a.Uses Constant.Plain S) (h : a.exec m mem = some mem') :
    m.Reaches (a.program name) ⟨0, mem⟩ ⟨a.width, mem'⟩ ∧
      m.HaltsAt (a.program name) ⟨a.width, mem'⟩ := by
  have hcode : Loaded (a.program name).code 0 (a.code 0 [] ++ [.halt]) :=
    ⟨[], [], by simp [program], rfl⟩
  have hplain : ∀ c ∈ (a.program name).constants, c.Plain := huses.pool (by simp)
  have hrun := reaches_code hcode.left (List.prefix_refl _) hplain huses h
  have hhalt := hcode.right
  rw [length_encode_code] at hhalt
  rw [Nat.zero_add] at hrun hhalt
  refine ⟨hrun, ?_⟩
  rw [HaltsAt, step_of_loaded hhalt, execute]

end Reaches

end StackScript
