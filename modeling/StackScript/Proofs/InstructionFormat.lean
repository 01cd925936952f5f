import Mathlib.Data.List.Basic
import StackScript.Program

/-!
# The instruction format

Code is read from its first word on, and an operand word may be the number of an operation, so
reading is right only as long as it stays in step.  `Code.decode_encode` says that it does:
instructions that were written one after the other are read back as they were, each at the sum of
the widths before it (`Code.locate`).

`Code.starts` lists the offsets at which a reader of some instructions stops: where each of them
starts, and where the last one ends.
-/

namespace StackScript

namespace Opcode

theorem width_of_bare {op : Opcode} {i : Instruction} (h : op.form = .bare i) : op.width = 1 := by
  cases op <;> cases h <;> rfl

theorem width_of_withOperand {op : Opcode} {f : Int → Instruction}
    (h : op.form = .withOperand f) : op.width = 2 := by
  cases op <;> cases h <;> rfl

end Opcode

namespace Instruction

@[simp] theorem length_words (i : Instruction) : i.words.length = i.width := by
  cases i <;> rfl

theorem width_pos (i : Instruction) : 0 < i.width := by
  rw [← i.length_words]
  simp [words]

@[simp] theorem width_halt : halt.width = 1 := rfl

@[simp] theorem width_jump (t : Int) : (jump t).width = 2 := rfl

@[simp] theorem width_jumpIfFalse (t : Int) : (jumpIfFalse t).width = 2 := rfl

/-- An instruction is what its operation needs, filled in with its operand. -/
theorem form_opcode (i : Instruction) :
    (i.opcode.form = .bare i ∧ i.operand? = none) ∨
      ∃ f x, i.opcode.form = .withOperand f ∧ i.operand? = some x ∧ i = f x := by
  cases i with
  | const x => exact .inr ⟨.const, x, rfl, rfl, rfl⟩
  | jump x => exact .inr ⟨.jump, x, rfl, rfl, rfl⟩
  | jumpIfFalse x => exact .inr ⟨.jumpIfFalse, x, rfl, rfl, rfl⟩
  | loadContext x => exact .inr ⟨.loadContext, x, rfl, rfl, rfl⟩
  | setContext x => exact .inr ⟨.setContext, x, rfl, rfl, rfl⟩
  | halt | add | sub | mul | div | eq => exact .inl ⟨rfl, rfl⟩

end Instruction

namespace Code

@[simp] theorem encode_nil : encode [] = [] := rfl

@[simp] theorem encode_cons (i : Instruction) (is : List Instruction) :
    encode (i :: is) = i.words ++ encode is := rfl

@[simp] theorem encode_append (is js : List Instruction) :
    encode (is ++ js) = encode is ++ encode js := by
  simp [encode]

/-- Instructions with their offsets, when the first one stands at the given offset. -/
def locate (offset : Nat) : List Instruction → List Located
  | [] => []
  | i :: is => ⟨offset, i⟩ :: locate (offset + i.width) is

@[simp] theorem map_instruction_locate (offset : Nat) (is : List Instruction) :
    (locate offset is).map Located.instruction = is := by
  induction is generalizing offset with
  | nil => rfl
  | cons i is ih => simp [locate, ih]

theorem filterMap_locate {β : Type} (f : Instruction → Option β) (offset : Nat)
    (is : List Instruction) :
    (locate offset is).filterMap (fun l => f l.instruction) = is.filterMap f := by
  rw [← map_instruction_locate offset is, List.filterMap_map, map_instruction_locate]
  rfl

theorem locate_append (offset : Nat) (is js : List Instruction) :
    locate offset (is ++ js) = locate offset is ++ locate (offset + (encode is).length) js := by
  induction is generalizing offset with
  | nil => simp [locate]
  | cons i is ih => simp [locate, ih, Nat.add_assoc]

theorem decodeFrom_words_append (offset : Nat) (i : Instruction) (rest : List Int) :
    decodeFrom offset (i.words ++ rest) =
      ⟨⟨offset, i⟩ :: (decodeFrom (offset + i.width) rest).instructions,
        (decodeFrom (offset + i.width) rest).fault⟩ := by
  obtain ⟨hf, ho⟩ | ⟨f, x, hf, ho, rfl⟩ := i.form_opcode
  · have hw : i.width = 1 := Opcode.width_of_bare hf
    simp [Instruction.words, ho, decodeFrom, Opcode.ofWord?_word, hf, hw]
  · have hw : (f x).width = 2 := Opcode.width_of_withOperand hf
    simp [Instruction.words, ho, decodeFrom, Opcode.ofWord?_word, hf, hw]

theorem decodeFrom_encode (offset : Nat) (is : List Instruction) :
    decodeFrom offset (encode is) = ⟨locate offset is, none⟩ := by
  induction is generalizing offset with
  | nil => rfl
  | cons i is ih => rw [encode_cons, decodeFrom_words_append, ih, locate]

/-- **Written instructions are read back**, each at the sum of the widths before it. -/
theorem decode_encode (is : List Instruction) : decode (encode is) = ⟨locate 0 is, none⟩ :=
  decodeFrom_encode 0 is

theorem exists_of_mem_locate {offset : Nat} {is : List Instruction} {l : Located}
    (h : l ∈ locate offset is) :
    ∃ before after, is = before ++ l.instruction :: after ∧
      l.offset = offset + (encode before).length := by
  induction is generalizing offset with
  | nil => cases h
  | cons i is ih =>
    rcases List.mem_cons.1 h with rfl | h
    · exact ⟨[], is, rfl, rfl⟩
    · obtain ⟨before, after, rfl, hoffset⟩ := ih h
      exact ⟨i :: before, after, rfl, by simp [hoffset, Nat.add_assoc]⟩

theorem offset_lt_of_mem_locate {offset : Nat} {is : List Instruction} {l : Located}
    (h : l ∈ locate offset is) : l.offset < offset + (encode is).length := by
  obtain ⟨before, after, rfl, hoffset⟩ := exists_of_mem_locate h
  have hwidth := l.instruction.width_pos
  simp only [encode_append, encode_cons, List.length_append, Instruction.length_words]
  omega

/-! ### Where instructions start -/

/-- The offsets at which instructions start, and the offset behind the last one. -/
def starts (offset : Nat) : List Instruction → List Nat
  | [] => [offset]
  | i :: is => offset :: starts (offset + i.width) is

theorem self_mem_starts (offset : Nat) (is : List Instruction) : offset ∈ starts offset is := by
  cases is <;> simp [starts]

theorem mem_starts_append_left {offset n : Nat} {is : List Instruction} (js : List Instruction)
    (h : n ∈ starts offset is) : n ∈ starts offset (is ++ js) := by
  induction is generalizing offset with
  | nil =>
    obtain rfl : n = offset := by simpa [starts] using h
    exact self_mem_starts n js
  | cons i is ih =>
    rcases List.mem_cons.1 h with rfl | h
    · exact List.mem_cons_self
    · exact List.mem_cons_of_mem _ (ih h)

theorem mem_starts_append_right {offset n : Nat} (is : List Instruction) {js : List Instruction}
    (h : n ∈ starts (offset + (encode is).length) js) : n ∈ starts offset (is ++ js) := by
  induction is generalizing offset with
  | nil => simpa using h
  | cons i is ih =>
    refine List.mem_cons_of_mem _ (ih ?_)
    simpa [Nat.add_assoc] using h

theorem end_mem_starts (offset : Nat) (is : List Instruction) :
    offset + (encode is).length ∈ starts offset is := by
  have h : offset + (encode is).length ∈ starts offset (is ++ []) :=
    mem_starts_append_right is (List.mem_singleton_self _)
  rwa [List.append_nil] at h

/-- With one more instruction behind them, every offset in `starts` is that of an instruction. -/
theorem exists_mem_locate_of_mem_starts {offset n : Nat} {is : List Instruction}
    (last : Instruction) (h : n ∈ starts offset is) :
    ∃ l ∈ locate offset (is ++ [last]), l.offset = n := by
  induction is generalizing offset with
  | nil =>
    obtain rfl : n = offset := by simpa [starts] using h
    exact ⟨⟨n, last⟩, by simp [locate], rfl⟩
  | cons i is ih =>
    rcases List.mem_cons.1 h with rfl | h
    · exact ⟨⟨n, i⟩, by simp [locate], rfl⟩
    · obtain ⟨l, hl, rfl⟩ := ih h
      exact ⟨l, List.mem_cons_of_mem _ hl, rfl⟩

end Code

end StackScript
