import StackScript.Proofs.PlanUses
import StackScript.Proofs.Recovery

/-!
# Compiled programs are well formed

`Program.verify` looks at the final halt and at the ranges of targets and constants.  Compiled
programs satisfy more (`Program.WellFormed`): every jump leads forward to the start of an
instruction, and every slot exists.  None of it depends on what was patched or cut off on the way,
since a program is the code of a plan:

* `Plan.sound_code` : the operands of the code of a plan;
* `Plan.wellFormed_program` : hence the program of a plan;
* `Script.wellFormed_of_compiled` : hence every program of `Script.compile` and
  `Script.compileEach`.
-/

namespace StackScript

/-- The operand of an instruction refers to something: a jump leads forward to one of the targets,
and the numbers of constants and slots are below their counts. -/
def Located.Sound (targets : List Nat) (constants slots : Nat) (l : Located) : Prop :=
  match l.instruction with
  | .jump t | .jumpIfFalse t => ∃ n ∈ targets, t = n ∧ l.offset < n
  | .const k => 0 ≤ k ∧ k < constants
  | .loadContext k | .setContext k => 0 ≤ k ∧ k < slots
  | .halt | .add | .sub | .mul | .div | .eq => True

/-- A program that a machine with so many slots can trust. -/
structure Program.WellFormed (p : Program) (slots : Nat) : Prop where
  verified : p.verify = .ok ()
  decodes : p.decoded.fault = none
  complete : Code.encode (p.decoded.instructions.map Located.instruction) = p.code
  halts : (p.decoded.instructions.map Located.instruction).getLast? = some .halt
  operands : ∀ l ∈ p.decoded.instructions,
    l.Sound (p.decoded.instructions.map Located.offset) p.constants.length slots

theorem Located.Sound.mono {l : Located} {targets more : List Nat} {constants slots : Nat}
    (h : l.Sound targets constants slots) (hsub : targets ⊆ more) :
    l.Sound more constants slots := by
  obtain ⟨offset, i⟩ := l
  cases i with
  | jump t | jumpIfFalse t =>
    obtain ⟨n, hn, htarget⟩ := h
    exact ⟨n, hsub hn, htarget⟩
  | halt | const | add | sub | mul | div | eq | loadContext | setContext => exact h

/-- What `Program.verify` asks of an operand is part of its soundness. -/
theorem Located.Sound.operandFault?_eq_none {p : Program} {l : Located} {targets : List Nat}
    {slots : Nat} (h : l.Sound targets p.constants.length slots)
    (htargets : ∀ n ∈ targets, n < p.code.length) : p.operandFault? l = none := by
  have hjump (op : Opcode) {t : Int} (h : ∃ n ∈ targets, t = n ∧ l.offset < n) :
      p.jumpFault? l.offset op t = none := by
    obtain ⟨n, hn, rfl, -⟩ := h
    have := htargets n hn
    -- A pending target is negative, so no offset looks like one.
    have hpending : (n : Int) ≠ pendingTarget := by simp [pendingTarget]
    simp [Program.jumpFault?, hpending, this]
  obtain ⟨offset, i⟩ := l
  cases i with
  | jump t => exact hjump .jump h
  | jumpIfFalse t => exact hjump .jumpIfFalse h
  | const k => exact if_pos h
  | halt | add | sub | mul | div | eq | loadContext | setContext => rfl

/-! ### Operands of plans -/

namespace Plan

open Code

theorem sound_code {a : Plan} {offset constants slots : Nat} {cs : List Constant}
    {C : Constant → Prop} (huses : a.Uses C (· < slots)) (hpool : (a.pool cs).length ≤ constants) :
    ∀ l ∈ locate offset (a.code offset cs),
      l.Sound (starts offset (a.code offset cs)) constants slots := by
  induction a generalizing offset cs with
  | skip => simp [code, locate]
  | halt => simp [code, locate, Located.Sound]
  | push c =>
    obtain ⟨d, hd, -⟩ := Constant.getElem?_placeIn (List.prefix_refl (c.insertInto cs))
    have hlt : c.placeIn cs < (c.insertInto cs).length := (List.getElem?_eq_some_iff.1 hd).1
    have hpool : (c.insertInto cs).length ≤ constants := hpool
    simp only [code, locate, List.mem_singleton, forall_eq, Located.Sound]
    omega
  | load slot | store slot =>
    have hslot : slot < slots := huses
    simpa [code, locate, Located.Sound] using hslot
  | operate op => cases op <;> simp [code, locate, Located.Sound, Operation.instruction]
  | andThen a b iha ihb =>
    intro l hl
    rw [code, locate_append, length_encode_code] at hl
    rcases List.mem_append.1 hl with hl | hl
    · refine (iha huses.1 ?_ l hl).mono fun n => mem_starts_append_left _
      exact Nat.le_trans (b.prefix_pool _).length_le hpool
    · refine (ihb huses.2 hpool l hl).mono fun n hn => mem_starts_append_right _ ?_
      rwa [length_encode_code]
  | branch a b iha ihb =>
    -- Both jumps lead out of their own part of the code, so their targets are found in the whole.
    have hcode := code_branch a b offset cs
    extract_lets start at hcode
    have hbody : starts (offset + 2) (a.code (offset + 2) cs) ⊆
        starts offset ((branch a b).code offset cs) := by
      intro n hn
      rw [hcode]
      exact mem_starts_append_right _ (mem_starts_append_left _ hn)
    have halternative : starts start (b.code start (a.pool cs)) ⊆
        starts offset ((branch a b).code offset cs) := by
      intro n hn
      rw [hcode]
      refine mem_starts_append_right _ (mem_starts_append_right _ (mem_starts_append_right _ ?_))
      rwa [length_encode_code]
    intro l hl
    have hl : l = ⟨offset, .jumpIfFalse start⟩ ∨
        l ∈ locate (offset + 2) (a.code (offset + 2) cs) ∨
        l = ⟨offset + 2 + a.width, .jump (start + b.width : Nat)⟩ ∨
        l ∈ locate start (b.code start (a.pool cs)) := by
      simpa only [locate_code_branch, List.mem_cons, List.mem_append] using hl
    rcases hl with rfl | hl | rfl | hl
    · exact ⟨start, halternative (self_mem_starts _ _), rfl, by simp [start]; omega⟩
    · exact (iha huses.1 (Nat.le_trans (b.prefix_pool _).length_le hpool) l hl).mono hbody
    · refine ⟨start + b.width, halternative ?_, rfl, by simp [start]; omega⟩
      simpa using end_mem_starts start (b.code start (a.pool cs))
    · exact (ihb huses.2 hpool l hl).mono halternative

theorem operands_program {a : Plan} {slots : Nat} {C : Constant → Prop} (name : String)
    (huses : a.Uses C (· < slots)) :
    ∀ l ∈ (a.program name).decoded.instructions,
      l.Sound ((a.program name).decoded.instructions.map Located.offset)
        (a.program name).constants.length slots := by
  rw [decoded_program]
  intro l hl
  rw [locate_append] at hl
  rcases List.mem_append.1 hl with hl | hl
  · -- A target may be the end of the plan's own code, and that is where the halt stands.
    refine (sound_code huses (Nat.le_refl _) l hl).mono fun n hn => ?_
    exact List.mem_map.2 (exists_mem_locate_of_mem_starts .halt hn)
  · obtain rfl := List.mem_singleton.1 hl
    trivial

/-- **The program of a plan is well formed**, with as many slots as the plan refers to. -/
theorem wellFormed_program {a : Plan} {slots : Nat} {C : Constant → Prop} (name : String)
    (huses : a.Uses C (· < slots)) : (a.program name).WellFormed slots where
  verified := by
    have hlast : (a.program name).code.getLast? = some Opcode.halt.word := by
      have hhalt : Instruction.halt.words = [Opcode.halt.word] := rfl
      simp [program, hhalt]
    have hoperands : (a.program name).decoded.instructions.findSome?
        (a.program name).operandFault? = none := by
      refine List.findSome?_eq_none_iff.2 fun l hl =>
        (operands_program name huses l hl).operandFault?_eq_none fun n hn => ?_
      obtain ⟨l', hl', rfl⟩ := List.mem_map.1 hn
      rw [decoded_program] at hl'
      simpa [program] using offset_lt_of_mem_locate hl'
    have hformat : (a.program name).decoded.fault = none := by rw [decoded_program]
    simp [Program.verify, Program.fault?, hlast, hoperands, hformat]
  decodes := by rw [decoded_program]
  complete := by rw [decoded_program, map_instruction_locate]; rfl
  halts := by simp [decoded_program]
  operands := operands_program name huses

end Plan

/-! ### Compiled programs -/

namespace Script

variable {α : Type} {s : Settings} {scope : Scope α} {script : Script}

theorem wellFormed_of_plan (hscope : scope.Bounded) {a : Plan} (h : script.plan s scope = .ok a) :
    (a.program s.name).WellFormed (scope.defineAll script.names).slotCount := by
  have hliterals : Constant.Holds (fun _ => True) script.numerals :=
    ⟨fun _ => trivial, fun _ => trivial, fun _ _ _ _ => trivial⟩
  rw [Scope.slotCount_defineAll]
  exact Plan.wellFormed_program s.name (Script.plan_uses h hliterals (hscope.admits script.names))

/-- **Compiled programs are well formed**, whether the script was compiled as a whole or with
refused statements left out, in every scope whose names mean slots that exist. -/
theorem wellFormed_of_compiled (hscope : scope.Bounded) :
    (∀ program, (script.compile s scope).result = .ok program →
      program.WellFormed (script.compile s scope).scope.slotCount) ∧
    (∀ report, (script.compileEach s scope).result = .ok report →
      report.program.WellFormed (script.compileEach s scope).scope.slotCount) := by
  constructor
  · intro program h
    obtain ⟨a, ha, rfl⟩ := compile_eq_ok_iff.1 h
    rw [(compile_of_plan ha).2]
    exact wellFormed_of_plan hscope ha
  · intro report h
    obtain ⟨a, ha, huses⟩ := exists_plan_of_compileEach h
    rw [ha]
    exact Plan.wellFormed_program s.name (huses hscope)

/-- One script, compiled as a whole where there is a variable `z`, and in part where there is
none. -/
theorem wellFormed_stumbling :
    let scope : Scope Unit := .empty []
    let larger := scope.defineAll ["z"]
    (larger.Bounded ∧ ∃ program, (stumbling.compile .standard larger).result = .ok program ∧
      program.WellFormed (stumbling.compile .standard larger).scope.slotCount) ∧
    (scope.Bounded ∧ ∃ report, (stumbling.compileEach .standard scope).result = .ok report ∧
      report.program.WellFormed (stumbling.compileEach .standard scope).scope.slotCount) := by
  intro scope larger
  have hscope : scope.Bounded := Scope.bounded_empty []
  have hlarger : larger.Bounded := hscope.defineAll ["z"]
  have hwhole : (stumbling.compile .standard larger).result = .ok _ :=
    compile_eq_ok_iff.2 ⟨_, rfl, rfl⟩
  refine ⟨⟨hlarger, _, hwhole, (wellFormed_of_compiled hlarger).1 _ hwhole⟩, hscope, ?_⟩
  obtain ⟨report, hpart⟩ := exists_report_of_sound (Scope.level_empty []) sound_stumbling
  exact ⟨report, hpart, (wellFormed_of_compiled hscope).2 report hpart⟩

end Script

end StackScript
