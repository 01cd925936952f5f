import StackScript.Program
import StackScript.Scope
import StackScript.Text.Blank
import StackScript.Text.Column

/-!
# Listings

A listing shows code one instruction a row: offset, words in hexadecimal, the operation, and what
its operand refers to.  Any code can be read, row by row or as a whole and any number of times.
Words that break the format, and operands that refer to nothing, become diagnostics in their rows and
reading goes on.  Each of them is reported apart from the row, too; the reports are those since the
whole code was last begun.
-/

namespace StackScript

/-! ### Rows -/

/-- A row of a listing. -/
structure Row where
  offset : Int
  words : List Int
  opcode : Option Opcode
  operand : String
  /-- What is wrong with the row. -/
  diagnostic : Option String
deriving DecidableEq, Repr

namespace Row

/-- The name of the operation. -/
def mnemonic (r : Row) : String :=
  match r.opcode with
  | some op => op.name
  | none => "UNKNOWN"

/-- The operand; a diagnostic takes its place. -/
def note (r : Row) : String :=
  match r.diagnostic with
  | some d => "<" ++ d ++ ">"
  | none => r.operand

/-- The line of a row, with so many hexadecimal digits a word. -/
def line (r : Row) (digits : Nat) : String :=
  let words := String.intercalate " " (r.words.map (Text.hex digits))
  let full := Text.decimal 4 r.offset ++ "  " ++ Text.padRight (2 * digits + 1) words ++ "  " ++
    Text.padRight 13 r.mnemonic ++ "  " ++ r.note
  String.ofList (Text.trimRight full.toList)

end Row

/-! ### Reading -/

/-- Reading code collects reports.  They stay where reading breaks off. -/
abbrev Reading := EStateM Breakdown (List String)

/-- Add a report. -/
def Reading.report (text : String) : Reading Unit := modify (· ++ [text])

/-- Both parts of a successful reading succeed. -/
theorem Reading.of_bind_eq_ok {β γ : Type} {x : Reading β} {f : β → Reading γ} {c : γ}
    {before after : List String} (h : (x >>= f) before = .ok c after) :
    ∃ b between, x before = .ok b between ∧ f b between = .ok c after := by
  simp only [bind, EStateM.bind] at h
  split at h
  · exact ⟨_, _, ‹_›, h⟩
  · cases h

/-- What a listing is made of. -/
structure Subject (α : Type) where
  code : List Int
  constants : List Constant
  scope : Scope α
  /-- Jumps are shown as such; otherwise their words are unknown operations. -/
  showJumps : Bool

namespace Subject

variable {α : Type} (s : Subject α)

/-- The listing subject of a program. -/
def ofProgram (p : Program) (scope : Scope α) (showJumps : Bool) : Subject α :=
  ⟨p.code, p.constants, scope, showJumps⟩

/-- The operation of a word, as far as the listing shows it. -/
def opcode? (word : Int) : Option Opcode :=
  (Opcode.ofWord? word).filter fun op => s.showJumps || !op.isJump

/-- What an operand refers to; none if it refers to nothing. -/
def reference? (op : Opcode) (operand : Int) : Option String :=
  match op with
  | .const =>
    if 0 ≤ operand then s.constants[operand.toNat]?.map fun c => "(" ++ c.text ++ ")" else none
  | .loadContext | .setContext => (s.scope.name? operand).map fun n => "(" ++ n ++ ")"
  | .jump | .jumpIfFalse =>
    if 0 ≤ operand ∧ operand < s.code.length then some ("-> " ++ Text.decimal 4 operand) else none
  | _ => some ""

/-- The word at a signed position. -/
def wordAt (position : Int) : Reading Int :=
  match (SignedIndex.resolve? s.code.length position).bind (s.code[·]?) with
  | some word => return word
  | none => throw .noWord

/-- Read a word that is no operation. -/
def readUnknown (position word : Int) : Reading Row := do
  let diagnostic := "unknown opcode 0x" ++ Text.hex 2 word
  Reading.report s!"{diagnostic} at offset {position}"
  return ⟨position, [word], none, "", some diagnostic⟩

/-- Read an instruction whose operand is cut off. -/
def readTruncated (position : Int) (words : List Int) (op : Opcode) : Reading Row := do
  let diagnostic := s!"truncated {op.name} at offset {position}"
  Reading.report diagnostic
  return ⟨position, words, some op, "", some diagnostic⟩

/-- Read an instruction with its operand. -/
def readOperand (position : Int) (words : List Int) (op : Opcode) (operand : Int) :
    Reading Row := do
  match s.reference? op operand with
  | some text => return ⟨position, words, some op, text, none⟩
  | none =>
    let spelled ← MonadExcept.ofExcept (Text.spell operand)
    let diagnostic := s!"invalid {op.name} operand {spelled}"
    Reading.report diagnostic
    return ⟨position, words, some op, "", some diagnostic⟩

/-- Read the row at a signed position, with the position after it. -/
def readRow (position : Int) : Reading (Row × Int) := do
  let word ← s.wordAt position
  match s.opcode? word with
  | none => return (← readUnknown position word, position + 1)
  | some op =>
    if position + op.width > s.code.length then
      let words := SignedIndex.slice s.code position s.code.length
      return (← readTruncated position words op, s.code.length)
    else
      let words := SignedIndex.slice s.code position (position + op.width)
      match op.form, words with
      | .bare _, _ => return (⟨position, words, some op, "", none⟩, position + 1)
      | .withOperand _, _ :: operand :: _ =>
        return (← s.readOperand position words op operand, position + op.width)
      | .withOperand _, _ => throw .noWord

theorem lt_of_wordAt {s : Subject α} {position word : Int} {before after : List String}
    (h : s.wordAt position before = .ok word after) : position < s.code.length := by
  unfold wordAt at h
  cases hword : (SignedIndex.resolve? s.code.length position).bind (s.code[·]?) with
  | none =>
    rw [hword] at h
    cases h
  | some w =>
    obtain ⟨i, hi, -⟩ := Option.bind_eq_some_iff.1 hword
    unfold SignedIndex.resolve? at hi
    split at hi
    · split at hi
      · assumption
      · cases hi
    · omega

/-- The ways in which a row is read, and the position after it. -/
inductive ReadsRow (s : Subject α) (position : Int) : Row → Int → Prop
  | unknown {row : Row} (hop : row.opcode = none) : ReadsRow s position row (position + 1)
  | truncated {row : Row} {op : Opcode} (hop : row.opcode = some op)
      (hend : position + op.width > s.code.length)
      (hwords : row.words = SignedIndex.slice s.code position s.code.length) :
      ReadsRow s position row s.code.length
  | bare {row : Row} {op : Opcode} {i : Instruction} (hop : row.opcode = some op)
      (hform : op.form = .bare i) : ReadsRow s position row (position + 1)
  | withOperand {row : Row} {op : Opcode} {word operand : Int} {rest : List Int}
      {before after : List String}
      (h : s.readOperand position (word :: operand :: rest) op operand before = .ok row after) :
      ReadsRow s position row (position + op.width)

theorem readsRow_of_readRow {s : Subject α} {position next : Int} {row : Row}
    {before after : List String} (h : s.readRow position before = .ok (row, next) after) :
    position < s.code.length ∧ s.ReadsRow position row next := by
  obtain ⟨word, between, hword, h⟩ := Reading.of_bind_eq_ok h
  refine ⟨lt_of_wordAt hword, ?_⟩
  cases hop : s.opcode? word with
  | none =>
    simp only [hop] at h
    cases h
    exact .unknown rfl
  | some op =>
    simp only [hop] at h
    by_cases hend : position + op.width > s.code.length
    · rw [if_pos hend] at h
      cases h
      exact .truncated rfl hend rfl
    · rw [if_neg hend] at h
      generalize SignedIndex.slice s.code position (position + op.width) = words at h
      cases hform : op.form with
      | bare i =>
        rw [hform] at h
        cases h
        exact .bare rfl hform
      | withOperand f =>
        rw [hform] at h
        match words, h with
        | _ :: operand :: _, h =>
          obtain ⟨_, _, hrow, h⟩ := Reading.of_bind_eq_ok h
          cases h
          exact .withOperand hrow
        | [], h | [_], h => cases h

/-- Reading a row leads forward in the code. -/
theorem lt_of_readRow {s : Subject α} {position next : Int} {row : Row}
    {before after : List String} (h : s.readRow position before = .ok (row, next) after) :
    position < next := by
  have hwidth (op : Opcode) : 0 < op.width := by unfold Opcode.width; omega
  obtain ⟨hposition, h⟩ := readsRow_of_readRow h
  cases h with
  | unknown | bare => omega
  | truncated => exact hposition
  | withOperand => exact Int.lt_add_of_pos_right position (Int.natCast_pos.2 (hwidth _))

/-- Read row after row from a position on, as long as it lies before the end of the code. -/
def readFrom (position : Int) : Reading (List Row) := fun reports =>
  if position < s.code.length then
    match _h : s.readRow position reports with
    | .ok (row, next) reports =>
      match readFrom next reports with
      | .ok rows reports => .ok (row :: rows) reports
      | .error why reports => .error why reports
    | .error why reports => .error why reports
  else .ok [] reports
termination_by (s.code.length - position).toNat
decreasing_by
  have hlt := lt_of_readRow _h
  omega

/-- Read the whole code; the reports start afresh. -/
def readRows : Reading (List Row) := do
  set ([] : List String)
  s.readFrom 0

/-! ### The text -/

/-- The line above the rows. -/
def header : String := "Offset  Bytes  Opcode  Operand"

/-- Hexadecimal digits of the widest word, at least two. -/
def wordDigits : Nat := (s.code.map fun w => (Text.hex 0 w).length).foldl max 2

/-- Read the whole code, and show it line by line. -/
def readLines : Reading (List String) := do
  let rows ← s.readRows
  return header :: rows.map fun row => row.line s.wordDigits

/-- Read the whole code, and show it as one text. -/
def readText : Reading String := do
  let lines ← s.readLines
  return String.intercalate "\n" lines

end Subject

end StackScript
