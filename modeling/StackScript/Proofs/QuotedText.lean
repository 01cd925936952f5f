import StackScript.Proofs.ListingRows
import StackScript.Proofs.StringGrammar

/-!
# Quoted text is a literal

A listing shows a string between double quotes.  Each character stands there as it is, or as one
escape sequence of the language (`Text.escapeChar_cases`).  So a quoted text is a literal for the
text (`Text.stringLiteral_quote`), it is read as such (`Text.string_quote`), and no two strings look
alike in a listing (`Subject.Shows.operand_eq_iff`, `Text.quote_injective`).
-/

namespace StackScript

namespace Text

open Literal JavaScript

theorem escapeSequence_single {c d : Char} (h : (d, c) ∈ singleEscapes) (next : List Char) :
    EscapeSequence [d] next (.ofChar c) ∧ ¬LongOctal ([d] ++ next) := by
  have hothers : ∀ x ∈ singleEscapes, x.1 ∉ highOctalDigits := forall_mem_of_all (by decide)
  exact ⟨.single h, not_longOctal_cons (hothers _ h)⟩

theorem escapeSequence_hex4 {c : Char} (hc : c.toNat < 0x10000) (next : List Char) :
    EscapeSequence ('u' :: hex4 c.toNat) next (.ofChar c) ∧
      ¬LongOctal ('u' :: hex4 c.toNat ++ next) := by
  have hdigit (n : Nat) : HexDigit (n % 16).digitChar (n % 16) :=
    ⟨Nat.mod_lt n (by decide), .inl rfl⟩
  have hdigits : List.Forall₂ HexDigit (hex4 c.toNat)
      [c.toNat / 4096 % 16, c.toNat / 256 % 16, c.toNat / 16 % 16, c.toNat % 16] :=
    .cons (hdigit _) (.cons (hdigit _) (.cons (hdigit _) (.cons (hdigit _) .nil)))
  have hvalue : (CodePoint.ofChar c).val = ofDigits 16
      [c.toNat / 4096 % 16, c.toNat / 256 % 16, c.toNat / 16 % 16, c.toNat % 16] := by
    have hval : (CodePoint.ofChar c).val = c.toNat := rfl
    simp only [hval, ofDigits, List.foldl_cons, List.foldl_nil]
    omega
  exact ⟨.unicode hdigits rfl hvalue, not_longOctal_cons (by decide)⟩

/-- A character between quotes stands as it is, or as an escape sequence that nothing behind it can
prolong. -/
theorem escapeChar_cases (c : Char) :
    (escapeChar c = [c] ∧ c ≠ '"' ∧ c ≠ '\\' ∧ c ≠ '\n' ∧ c ≠ '\r') ∨
      ∃ e, escapeChar c = '\\' :: e ∧
        ∀ next, EscapeSequence e next (.ofChar c) ∧ ¬LongOctal (e ++ next) := by
  generalize hwritten : escapeChar c = written
  unfold escapeChar at hwritten
  split_ifs at hwritten with hquote hescape hline hreturn htab hback hfeed hcontrol <;>
    subst hwritten
  · exact .inr ⟨_, rfl, escapeSequence_single (by rw [hquote]; decide)⟩
  · exact .inr ⟨_, rfl, escapeSequence_single (by rw [hescape]; decide)⟩
  · exact .inr ⟨_, rfl, escapeSequence_single (by rw [hline]; decide)⟩
  · exact .inr ⟨_, rfl, escapeSequence_single (by rw [hreturn]; decide)⟩
  · exact .inr ⟨_, rfl, escapeSequence_single (by rw [htab]; decide)⟩
  · exact .inr ⟨_, rfl, escapeSequence_single (by rw [hback]; decide)⟩
  · exact .inr ⟨_, rfl, escapeSequence_single (by rw [hfeed]; decide)⟩
  · exact .inr ⟨_, rfl, escapeSequence_hex4 (Nat.lt_trans hcontrol (by decide))⟩
  · exact .inl ⟨rfl, hquote, hescape, hline, hreturn⟩

theorem unescape_escapeChar (c : Char) (rest : List Char) :
    unescape 0 (escapeChar c ++ rest) = (unescape 0 rest).map (.ofChar c :: ·) := by
  obtain ⟨heq, -, hc, -⟩ | ⟨e, heq, hescape⟩ := escapeChar_cases c
  · rw [heq, List.singleton_append, unescape_plain hc]
  · obtain ⟨he, hshort⟩ := hescape rest
    rw [heq, List.cons_append, unescape_escape (he.escape?_eq hshort)]
    rfl

theorem unescape_flatMap_escapeChar (cs : List Char) :
    unescape 0 (cs.flatMap escapeChar) = .ok (cs.map .ofChar) := by
  induction cs with
  | nil => rfl
  | cons c cs ih =>
    rw [List.flatMap_cons, unescape_escapeChar, ih]
    rfl

theorem stringCharacters_flatMap_escapeChar (cs : List Char) :
    StringCharacters '"' (cs.flatMap escapeChar) (CodePoint.encode (cs.map .ofChar)) := by
  induction cs with
  | nil => exact .nil
  | cons c cs ih =>
    rw [List.flatMap_cons, List.map_cons, CodePoint.encode_cons]
    obtain ⟨heq, hquote, hescape, hline⟩ | ⟨e, heq, hsequence⟩ := escapeChar_cases c
    · rw [heq]
      exact .source hquote hescape hline ih
    · rw [heq]
      exact .escape (hsequence _).1 ih

theorem body_quote (s : String) : body (quote s) = s.toList.flatMap escapeChar := by
  simp [body, quote]

/-- Reading a quoted text gives the text. -/
theorem string_quote (s : String) : Literal.string (quote s) = .ok s := by
  have hread : unescape 0 (body (quote s)) = .ok (s.toList.map .ofChar) := by
    rw [body_quote, unescape_flatMap_escapeChar]
  rw [string_of_unescape hread, CodePoint.join?_map_ofChar]
  simp

/-- In JavaScript a quoted text is a literal for the text. -/
theorem stringLiteral_quote (s : String) : StringLiteral (quote s) (utf16 s) :=
  ⟨'"', _, .inl rfl, by rw [quote, String.toList_ofList]; rfl,
    stringCharacters_flatMap_escapeChar s.toList⟩

theorem quote_injective {s t : String} (h : quote s = quote t) : s = t := by
  have hs := string_quote s
  rw [h, string_quote] at hs
  exact (Except.ok.inj hs).symm

end Text

/-! ### Listings -/

namespace Subject

variable {α β : Type}

variable {s : Subject α}

/-- Where the code ends within an instruction, there is no operand to show. -/
theorem operandWord_of_truncated {position : Int} {op : Opcode}
    (hend : position + op.width > s.code.length) :
    (SignedIndex.slice s.code position s.code.length)[1]? = none := by
  have hwidth : op.width ≤ 2 := by cases op <;> decide
  have hlength : (SignedIndex.slice s.code position s.code.length).length =
      s.code.length - SignedIndex.clamp s.code.length position := by
    simp [SignedIndex.slice, SignedIndex.clamp_natCast]
  rw [List.getElem?_eq_none_iff, hlength, SignedIndex.clamp]
  split <;> omega

theorem of_readOperand {position x : Int} {words : List Int} {op : Opcode} {row : Row}
    {before after : List String} (h : s.readOperand position words op x before = .ok row after) :
    row.words = words ∧ row.opcode = some op ∧
      ∀ text, s.reference? op x = some text → row.operand = text := by
  cases hreference : s.reference? op x with
  | some text =>
    simp only [readOperand, hreference] at h
    cases h
    exact ⟨rfl, rfl, fun _ htext => Option.some.inj htext⟩
  | none =>
    simp only [readOperand, hreference] at h
    obtain ⟨_, _, -, h⟩ := Reading.of_bind_eq_ok h
    obtain ⟨_, _, -, h⟩ := Reading.of_bind_eq_ok h
    cases h
    exact ⟨rfl, rfl, fun _ htext => by cases htext⟩

/-- A row of a constant shows the text of the constant. -/
theorem operand_of_readRow {position next : Int} {row : Row} {before after : List String}
    (h : s.readRow position before = .ok (row, next) after) (hop : row.opcode = some .const)
    {i : Nat} (hindex : row.words[1]? = some (i : Int)) {c : Constant}
    (hc : s.constants[i]? = some c) : row.operand = "(" ++ c.text ++ ")" := by
  obtain ⟨-, h⟩ := readsRow_of_readRow h
  cases h with
  | unknown hnone =>
    rw [hnone] at hop
    cases hop
  | truncated _ hend hwords =>
    rw [hwords, operandWord_of_truncated hend] at hindex
    cases hindex
  | bare hbare hform =>
    obtain rfl := Option.some.inj (hbare.symm.trans hop)
    cases hform
  | @withOperand op word operand rest _ _ hrow =>
    obtain ⟨hwords, hopcode, hoperand⟩ := of_readOperand hrow
    obtain rfl : op = .const := Option.some.inj (hopcode.symm.trans hop)
    obtain rfl : operand = (i : Int) := by simpa [hwords] using hindex
    exact hoperand _ (by simp [reference?, hc])

/-- Reading gives a row that shows a constant, the one with the index that stands in the row. -/
structure Shows (subject : Subject α) (row : Row) (c : Constant) : Prop where
  read : ∃ position next before after, subject.readRow position before = .ok (row, next) after
  opcode_eq : row.opcode = some .const
  constant : ∃ i : Nat, row.words[1]? = some (i : Int) ∧ subject.constants[i]? = some c

theorem Shows.operand_eq {subject : Subject α} {row : Row} {c : Constant}
    (h : subject.Shows row c) : row.operand = "(" ++ c.text ++ ")" := by
  obtain ⟨position, next, before, after, hread⟩ := h.read
  obtain ⟨i, hindex, hc⟩ := h.constant
  exact operand_of_readRow hread h.opcode_eq hindex hc

/-- Rows look alike exactly if the constants that they show do. -/
theorem Shows.operand_eq_iff {first : Subject α} {second : Subject β} {row row' : Row}
    {c d : Constant} (h : first.Shows row c) (h' : second.Shows row' d) :
    row.operand = row'.operand ↔ c.text = d.text := by
  rw [h.operand_eq, h'.operand_eq]
  simp

end Subject

/-- **The text of a string constant is a literal for the string**, in JavaScript and to the reader.
Hence rows of listings that show different strings look different. -/
theorem Constant.text_string_isLiteral :
    (∀ s, JavaScript.StringLiteral (string s).text (Text.utf16 s) ∧
      Literal.string (string s).text = .ok s) ∧
    ∀ {α β : Type} (first : Subject α) (second : Subject β) (row row' : Row) (s t : String),
      first.Shows row (.string s) → second.Shows row' (.string t) → s ≠ t →
        row.operand ≠ row'.operand :=
  ⟨fun s => ⟨Text.stringLiteral_quote s, Text.string_quote s⟩,
    fun _ _ _ _ _ _ hs ht hne hsame => hne (Text.quote_injective ((hs.operand_eq_iff ht).1 hsame))⟩

/-- A line break, and a backslash before a letter. -/
theorem Constant.text_string_isLiteral_lineBreak :
    let subject : Subject Unit := ⟨[1, 0, 1, 1, 0], [string "\n", string "\\n"], .empty [], true⟩
    ∃ row row', subject.Shows row (.string "\n") ∧ subject.Shows row' (.string "\\n") ∧
      row.operand ≠ row'.operand := by
  intro subject
  have hfirst : subject.Shows ⟨0, [1, 0], some .const, "(" ++ (string "\n").text ++ ")", none⟩
      (.string "\n") := ⟨⟨0, 2, [], [], rfl⟩, rfl, 0, rfl, rfl⟩
  have hsecond : subject.Shows ⟨2, [1, 1], some .const, "(" ++ (string "\\n").text ++ ")", none⟩
      (.string "\\n") := ⟨⟨2, 4, [], [], rfl⟩, rfl, 1, rfl, rfl⟩
  exact ⟨_, _, hfirst, hsecond,
    text_string_isLiteral.2 subject subject _ _ _ _ hfirst hsecond (by decide)⟩

end StackScript
