import Mathlib.Data.List.Basic
import StackScript.Grammar

/-!
# Boundaries of characters

Positions in a source are counted in bytes.  This file says that the scanner never stops inside a
character: the marks of its tokens are boundaries (`Scanner.Reads`), however it is moved.  Between
two boundaries there is always a text, which is part of the source (`Boundary.exists_text`).
-/

namespace StackScript

/-- A byte where a character of the source starts, or the end of the source. -/
def Boundary (source : List Char) (byte : Nat) : Prop :=
  ∃ before behind, source = before ++ behind ∧ byte = before.utf8Encode.size

theorem boundary_zero (source : List Char) : Boundary source 0 := ⟨[], source, rfl, rfl⟩

theorem boundary_size (source : List Char) : Boundary source source.utf8Encode.size :=
  ⟨source, [], by simp, rfl⟩

theorem fromUTF8?_utf8Encode (cs : List Char) :
    String.fromUTF8? cs.utf8Encode = some (String.ofList cs) := by
  simp [String.fromUTF8?, String.fromUTF8, ByteArray.isValidUTF8_utf8Encode, String.ofList]

/-- **Between two boundaries there is a text**, and it is part of the source. -/
theorem Boundary.exists_text {source : String} {start stop : Nat}
    (hstart : Boundary source.toList start) (hstop : Boundary source.toList stop) :
    ∃ cs, cs <:+: source.toList ∧
      String.fromUTF8? (source.toUTF8.extract start stop) = some (String.ofList cs) := by
  obtain ⟨before, behind, hsource, rfl⟩ := hstart
  obtain ⟨before', behind', hsource', rfl⟩ := hstop
  have hbytes : source.toUTF8 = before.utf8Encode ++ behind.utf8Encode := by
    rw [← List.utf8Encode_append, ← hsource, String.utf8Encode_toList, String.toUTF8]
  rcases List.append_eq_append_iff.1 (hsource.symm.trans hsource') with
    ⟨cs, rfl, rfl⟩ | ⟨cs, rfl, rfl⟩
  · refine ⟨cs, ⟨before, behind', by simp [hsource']⟩, ?_⟩
    rw [← fromUTF8?_utf8Encode, hbytes, List.utf8Encode_append, List.utf8Encode_append,
      ByteArray.size_append]
    congr 1
    exact (ByteArray.extract_append_size_add (i := 0)).trans (ByteArray.extract_append_eq_left rfl)
  · -- The second byte does not stand behind the first one.
    refine ⟨[], List.nil_infix, ?_⟩
    rw [← fromUTF8?_utf8Encode, List.utf8Encode_append, ByteArray.size_append,
      ByteArray.extract_add_left, List.utf8Encode_nil]

namespace Grammar

variable {source : List Char}

/-! ### Cursors -/

/-- The cursor stands in the source, at the boundary that its mark names. -/
def Cursor.In (source : List Char) (c : Cursor) : Prop :=
  ∃ before, source = before ++ c.rest ∧ c.mark.byte = before.utf8Encode.size

theorem Cursor.In.boundary {c : Cursor} (h : c.In source) : Boundary source c.mark.byte := by
  obtain ⟨before, hsource, hbyte⟩ := h
  exact ⟨before, c.rest, hsource, hbyte⟩

theorem Mark.byte_behind (m : Mark) (c : Char) : (m.behind c).byte = m.byte + c.utf8Size := by
  unfold behind
  split <;> rfl

theorem size_utf8Encode_concat (cs : List Char) (c : Char) :
    (cs ++ [c]).utf8Encode.size = cs.utf8Encode.size + c.utf8Size := by
  rw [List.utf8Encode_append, ByteArray.size_append, List.utf8Encode_singleton,
    List.size_toByteArray, String.length_utf8EncodeChar]

/-- A cursor stays in the source behind its next character. -/
theorem Cursor.In.behind {m : Mark} {c : Char} {cs : List Char}
    (h : Cursor.In source ⟨c :: cs, m⟩) : Cursor.In source ⟨cs, m.behind c⟩ := by
  obtain ⟨before, hsource, hbyte⟩ := h
  refine ⟨before ++ [c], by simp [hsource], ?_⟩
  rw [size_utf8Encode_concat, Mark.byte_behind, ← hbyte]

theorem Cursor.In.forward {c : Cursor} (h : c.In source) (n : Nat) : (c.forward n).In source := by
  obtain ⟨rest, m⟩ := c
  unfold Cursor.forward
  induction n generalizing rest m with
  | zero => simpa using h
  | succ n ih =>
    cases rest with
    | nil => simpa using h
    | cons c rest => simpa using ih rest (m.behind c) h.behind

theorem skipTrivia_in {m : Mark} {cs : List Char} (h : Cursor.In source ⟨cs, m⟩) (place : Trivia)
    (veiled : Bool) : (skipTrivia place veiled m cs).cursor.In source := by
  fun_induction skipTrivia place veiled m cs with
  | case1 => exact h
  | case2 v m cs ih => exact ih h.behind.behind
  | case3 v m c cs _ ih => exact ih h.behind
  | case4 v m c cs ih => exact ih h.behind
  | case5 v m cs ih => exact ih h.behind.behind
  | case6 v m cs _ ih => exact ih h.behind.behind
  | case7 => exact h
  | case8 v m c cs _ _ _ ih => exact ih h.behind
  | case9 => exact h

/-! ### Scanners -/

/-- A token spans characters of the source. -/
structure Token.In (source : List Char) (t : Token) : Prop where
  start : Boundary source t.start.byte
  stop : Boundary source t.stop.byte

/-- A scanner reads a source: wherever it points to is a boundary. -/
structure Scanner.Reads (source : List Char) (s : Scanner) : Prop where
  token : s.token.In source
  here : s.here.In source
  next : s.next.In source
  last : Boundary source s.last.byte

theorem scan_reads {c : Cursor} (h : c.In source) (limit : Nat) : (scan limit c).Reads source := by
  have hhere : (skipTrivia .blank false c.mark c.rest).cursor.In source := skipTrivia_in h _ _
  exact ⟨⟨hhere.boundary, (hhere.forward _).boundary⟩, hhere, hhere.forward _, h.boundary⟩

theorem Scanner.Reads.advance {s : Scanner} (h : s.Reads source) : s.advance.Reads source :=
  scan_reads h.next s.limit

theorem Scanner.ofSource_reads (source : List Char) : (Scanner.ofSource source).Reads source := by
  have h : Cursor.In source ⟨source, ⟨0, 0, 0⟩⟩ := ⟨[], rfl, rfl⟩
  exact scan_reads h _

theorem skipInterpreter_reads {s : Scanner} (h : s.Reads source) :
    (skipInterpreter s).Reads source := by
  unfold skipInterpreter
  split
  · exact scan_reads (h.here.forward _) _
  · exact h

end Grammar

end StackScript
