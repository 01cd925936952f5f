import StackScript.Proofs.Machine
import StackScript.Proofs.UniqueDecoding

/-!
# What verification says about the end of a program

`Program.verify` asks that the last word of the code is the number of the halt.  The last word may
be an operand, so this does not make the last instruction a halt: one with operand zero can stand
there as well, and nothing else can (`Program.end_of_verified`).  The last instruction is a halt
exactly if the code without its last word is still made of whole instructions, and then no step of
a machine leads behind the end of the code.
-/

namespace StackScript

/-- A step leads behind the instruction, unless it is a jump that is taken. -/
theorem Semantics.pc_of_execute {V : Type} {m : Semantics V} {cs : List Constant} {i : Instruction}
    {σ τ : MachineState V} (h : m.execute cs i σ = .running τ) :
    τ.pc = σ.pc + i.width ∨ i = .jump τ.pc ∨ i = .jumpIfFalse τ.pc := by
  have hcombine {f : V → V → V} (h : combine f σ = .running τ) : τ.pc = σ.pc + 1 := by
    unfold combine at h
    split at h <;> cases h
    rfl
  have hgoto {t : Int} {mem : Memory V} (h : goto t mem = .running τ) : t = τ.pc := by
    unfold goto at h
    split at h <;> cases h
    rename_i pc hpc
    exact Int.mem_toNat?.1 hpc
  cases i with
  | halt => cases h
  | add | sub | mul | div | eq => exact .inl (hcombine h)
  | jump t => exact .inr (.inl (by rw [hgoto h]))
  | jumpIfFalse t =>
    simp only [execute] at h
    split at h
    · rename_i v rest hstack
      by_cases hv : m.falsy v = true
      · rw [if_pos hv] at h
        exact .inr (.inr (by rw [hgoto h]))
      · rw [if_neg hv] at h
        cases h
        exact .inl rfl
    · cases h
  | const | loadContext | setContext =>
    simp only [execute] at h
    split at h <;> cases h
    exact .inl rfl

namespace Code

/-- The last word of a code is the number of the halt in two cases. -/
theorem halt_or_operand_eq_zero {is : List Instruction} {last : Instruction}
    (h : (encode (is ++ [last])).getLast? = some Opcode.halt.word) :
    last = .halt ∨ last.operand? = some 0 := by
  have hlast : last.words.getLast? = some Opcode.halt.word := by
    have hne : last.words ≠ [] := List.cons_ne_nil _ _
    rw [encode_append, encode_cons, encode_nil, List.append_nil] at h
    rwa [List.getLast?_append_of_ne_nil _ hne] at h
  cases last with
  | halt => exact .inl rfl
  | add | sub | mul | div | eq => cases hlast
  | const x | jump x | jumpIfFalse x | loadContext x | setContext x =>
    exact .inr (by simpa [Instruction.words, Instruction.operand?, Opcode.word] using hlast)

/-- Without its last word, a code ends in the middle of its last instruction unless that has no
operand. -/
theorem fault_decode_dropLast_eq_none_iff {is : List Instruction} {last : Instruction} :
    (decode (encode (is ++ [last])).dropLast).fault = none ↔ last.operand? = none := by
  obtain ⟨-, hoperand⟩ | ⟨f, x, hform, hoperand, rfl⟩ := last.form_opcode
  · have hdrop : (encode (is ++ [last])).dropLast = encode is := by
      simp [Instruction.words, hoperand]
    simp only [hdrop, decode_encode, hoperand]
  · have hdrop : (encode (is ++ [f x])).dropLast = encode is ++ [(f x).opcode.word] := by
      simp [Instruction.words, hoperand]
    have hrest : Unread (encode is).length [(f x).opcode.word] _ := .truncated hform
    rw [hdrop, decode, decodeFrom_encode_append, Nat.zero_add, hrest.decodeFrom_eq, hoperand]
    simp

end Code

namespace Program

/-- What it takes to be accepted. -/
theorem verify_eq_ok_iff {p : Program} :
    p.verify = .ok () ↔ p.code.getLast? = some Opcode.halt.word ∧ p.decoded.fault = none ∧
      ∀ l ∈ p.decoded.instructions, p.operandFault? l = none := by
  have hverify : p.verify = .ok () ↔ p.fault? = none := by
    unfold verify
    split <;> simp [*]
  rw [hverify, fault?]
  by_cases hlast : p.code.getLast? = some Opcode.halt.word
  · simp [hlast, List.findSome?_eq_none_iff, and_comm]
  · simp [hlast]

theorem jumpFault?_eq_none_iff {p : Program} {offset : Nat} {op : Opcode} {t : Int} :
    p.jumpFault? offset op t = none ↔ 0 ≤ t ∧ t < p.code.length := by
  unfold jumpFault?
  by_cases hpending : t = pendingTarget
  · -- A pending target is negative, so it is out of range as well.
    subst hpending
    simp [pendingTarget]
  · simp [hpending]

/-- No step of an accepted program with a halt at its end leads behind the end. -/
theorem pc_lt_of_step {p : Program} (h : p.verify = .ok ()) {is : List Instruction}
    (hcode : p.code = Code.encode (is ++ [.halt])) {V : Type} {m : Semantics V}
    {σ τ : MachineState V} (hσ : σ.pc ∈ p.decoded.instructions.map Located.offset)
    (hstep : m.step p σ = .running τ) : τ.pc < p.code.length := by
  obtain ⟨-, -, hoperands⟩ := verify_eq_ok_iff.1 h
  have hdecoded : p.decoded = ⟨Code.locate 0 (is ++ [.halt]), none⟩ := by
    rw [decoded, hcode, Code.decode_encode]
  obtain ⟨l, hl, hpc⟩ := List.mem_map.1 hσ
  have hfault := hoperands l hl
  rw [hdecoded] at hl
  obtain ⟨before, after, his, hoffset⟩ := Code.exists_of_mem_locate hl
  rw [Nat.zero_add] at hoffset
  rw [his] at hcode
  have hloaded : Code.Loaded p.code σ.pc (l.instruction :: after) :=
    ⟨Code.encode before, [], by simp [hcode], by rw [← hoffset, hpc]⟩
  rw [Semantics.step_of_loaded hloaded] at hstep
  rcases Semantics.pc_of_execute hstep with hnext | hjump | hjump
  · cases after with
    | nil =>
      -- The last instruction is the halt, and a halt does not go on.
      obtain ⟨-, hlast⟩ := List.append_inj' his rfl
      rw [← (List.cons.inj hlast).1] at hstep
      cases hstep
    | cons i after =>
      have hwidth := i.width_pos
      simp only [hcode, Code.encode_append, Code.encode_cons, List.length_append,
        Instruction.length_words]
      omega
  · rw [operandFault?, hjump] at hfault
    have htarget := jumpFault?_eq_none_iff.1 hfault
    omega
  · rw [operandFault?, hjump] at hfault
    have htarget := jumpFault?_eq_none_iff.1 hfault
    omega

/-- **The end of an accepted program.**  The whole code is read, and its last instruction reaches
to the end: it is a halt or has operand zero.  It is a halt exactly if the code without its last
word can be read too, and then no step from an instruction leads behind the end. -/
theorem end_of_verified {p : Program} (h : p.verify = .ok ()) :
    p.decoded.fault = none ∧ ∃ l, p.decoded.instructions.getLast? = some l ∧
      l.offset + l.instruction.width = p.code.length ∧
      (l.instruction = .halt ∨ l.instruction.operand? = some 0) ∧
      (l.instruction = .halt ↔ (Code.decode p.code.dropLast).fault = none) ∧
      (l.instruction = .halt → ∀ (V : Type) (m : Semantics V) (σ τ : MachineState V),
        σ.pc ∈ p.decoded.instructions.map Located.offset → m.step p σ = .running τ →
          τ.pc < p.code.length) := by
  obtain ⟨hlast, hfault, -⟩ := verify_eq_ok_iff.1 h
  obtain ⟨is, hcode⟩ := Code.fault_decode_eq_none_iff.1 hfault
  obtain rfl | ⟨is, last, rfl⟩ := is.eq_nil_or_concat
  · rw [← hcode] at hlast
    cases hlast
  · rw [List.concat_eq_append] at hcode
    have hend : last = .halt ∨ last.operand? = some 0 :=
      Code.halt_or_operand_eq_zero (by rwa [hcode])
    refine ⟨hfault, ⟨(Code.encode is).length, last⟩, ?_, ?_, hend, ?_, ?_⟩
    · rw [decoded, ← hcode, Code.decode_encode, Code.locate_append]
      simp [Code.locate]
    · simp [← hcode]
    · rw [← hcode, Code.fault_decode_dropLast_eq_none_iff]
      rcases hend with rfl | hzero
      · simp [Instruction.operand?]
      · simp only [hzero, reduceCtorEq, iff_false]
        rintro rfl
        cases hzero
    · rintro rfl V m σ τ hσ hstep
      exact pc_lt_of_step h hcode.symm hσ hstep

/-- The machine pushes the constant, and stops at the halt behind it. -/
theorem end_of_verified_halt :
    let p : Program := ⟨"main", [1, 0, 0], [.boolean true]⟩
    p.verify = .ok () ∧ p.decoded.instructions.getLast? = some ⟨2, .halt⟩ ∧
      ∀ (V : Type) (m : Semantics V) (σ τ : MachineState V),
        σ.pc ∈ [0, 2] → m.step p σ = .running τ → τ.pc < 3 := by
  intro p
  have h : p.verify = .ok () := rfl
  have hlast : p.decoded.instructions.getLast? = some ⟨2, .halt⟩ := rfl
  obtain ⟨-, l, hl, -, -, -, hinside⟩ := end_of_verified h
  obtain rfl : ⟨2, .halt⟩ = l := Option.some.inj (hlast.symm.trans hl)
  exact ⟨h, hlast, hinside rfl⟩

/-- An accepted program that ends with a constant: its number, zero, is taken for the halt.  The
machine pushes the constant and then finds no instruction. -/
theorem verify_constant_at_end :
    let p : Program := ⟨"main", [1, 0], [.boolean true]⟩
    p.verify = .ok () ∧ p.decoded = ⟨[⟨0, .const 0⟩], none⟩ ∧
      ∀ (V : Type) (m : Semantics V) (mem : Memory V),
        m.step p ⟨0, mem⟩ = .running ⟨p.code.length, mem.push (m.constant (.boolean true))⟩ ∧
        m.step p ⟨p.code.length, mem.push (m.constant (.boolean true))⟩ = .stuck :=
  ⟨rfl, rfl, fun _ _ _ => ⟨rfl, rfl⟩⟩

end Program

end StackScript
