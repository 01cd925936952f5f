import Mathlib.Data.List.Induction
import StackScript.Session.LineBuffer

/-!
# Braces outside string literals

A line is cut into code and string literals, and only the braces of the code are counted.  Here a
line is described by its segments, apart from the count: code has no quotes; a literal has the same
quote on either side, and between them plain characters and characters behind a backslash; the last
literal of a line may lack its closing quote.

* `SegmentedLine` : a line by its segments;
* `SegmentedLine.exists_text_eq` : every line is of that form;
* `SegmentedLine.braceBalance_text` : the balance of a line is that of its code.
-/

namespace StackScript

/-! ### Lines by their segments -/

/-- The quotes that enclose literals. -/
inductive QuoteKind where
  | single
  | double
deriving DecidableEq, Repr

/-- The character that opens and closes a literal. -/
def QuoteKind.mark : QuoteKind → Char
  | single => '\''
  | double => '"'

/-- A unit of a literal that is closed by a mark: a character that stands for itself, or a backslash
with the character it takes. -/
inductive LiteralUnit (mark : Char) where
  | plain (c : Char) (hmark : c ≠ mark) (hescape : c ≠ '\\')
  | escaped (c : Char)

/-- The characters of a unit. -/
def LiteralUnit.chars {mark : Char} : LiteralUnit mark → List Char
  | plain c _ _ => [c]
  | escaped c => ['\\', c]

/-- A part of a line: code without quotes, or a literal. -/
inductive LineSegment where
  | code (text : List Char) (hquotes : ∀ q : QuoteKind, q.mark ∉ text)
  | literal (quote : QuoteKind) (body : List (LiteralUnit quote.mark))

namespace LineSegment

/-- The characters of a segment. -/
def chars : LineSegment → List Char
  | code text _ => text
  | literal quote body => quote.mark :: (body.flatMap LiteralUnit.chars ++ [quote.mark])

/-- The code of a segment. -/
def codeChars : LineSegment → List Char
  | code text _ => text
  | literal _ _ => []

end LineSegment

/-- A literal that its line does not close.  Its last character may be a backslash that finds
nothing to take. -/
structure OpenLiteral where
  quote : QuoteKind
  body : List (LiteralUnit quote.mark)
  dangling : Bool

/-- The characters of a literal without its end. -/
def OpenLiteral.chars (l : OpenLiteral) : List Char :=
  l.quote.mark :: (l.body.flatMap LiteralUnit.chars ++ if l.dangling then ['\\'] else [])

/-- A line by its segments, with the literal that it leaves open. -/
structure SegmentedLine where
  segments : List LineSegment
  unclosed : Option OpenLiteral

namespace SegmentedLine

/-- The characters of a line. -/
def chars (l : SegmentedLine) : List Char :=
  l.segments.flatMap LineSegment.chars ++ l.unclosed.elim [] OpenLiteral.chars

/-- The line as a text. -/
def text (l : SegmentedLine) : String := String.ofList l.chars

/-- What stands outside of literals. -/
def codeChars (l : SegmentedLine) : List Char := l.segments.flatMap LineSegment.codeChars

end SegmentedLine

/-- Opening minus closing braces of a text, wherever they stand. -/
def netBraces (cs : List Char) : Int := cs.count '{' - cs.count '}'

theorem netBraces_append (cs ds : List Char) :
    netBraces (cs ++ ds) = netBraces cs + netBraces ds := by
  simp only [netBraces, List.count_append, Int.natCast_add]
  omega

/-! ### Every line has segments -/

/-- What can follow an opening quote: a body with the closing quote, or a body and the end. -/
def LiteralTail (quote : QuoteKind) (cs : List Char) : Prop :=
  ∃ body : List (LiteralUnit quote.mark),
    (∃ rest, cs = body.flatMap LiteralUnit.chars ++ quote.mark :: rest) ∨
      ∃ dangling : Bool, cs = body.flatMap LiteralUnit.chars ++ if dangling then ['\\'] else []

theorem LiteralTail.cons {quote : QuoteKind} {cs : List Char} (u : LiteralUnit quote.mark)
    (h : LiteralTail quote cs) : LiteralTail quote (u.chars ++ cs) := by
  obtain ⟨body, ⟨rest, rfl⟩ | ⟨dangling, rfl⟩⟩ := h
  · exact ⟨u :: body, .inl ⟨rest, by simp⟩⟩
  · exact ⟨u :: body, .inr ⟨dangling, by simp⟩⟩

/-- Whatever follows an opening quote is the rest of a literal, closed or not. -/
theorem literalTail (quote : QuoteKind) (cs : List Char) : LiteralTail quote cs := by
  -- A backslash takes the next character with it, so the induction goes by two.
  induction cs using List.twoStepInduction with
  | nil => exact ⟨[], .inr ⟨false, rfl⟩⟩
  | singleton c =>
    by_cases hescape : c = '\\'
    · exact ⟨[], .inr ⟨true, by rw [hescape]; rfl⟩⟩
    by_cases hmark : c = quote.mark
    · exact ⟨[], .inl ⟨[], by rw [hmark]; rfl⟩⟩
    · exact ⟨[.plain c hmark hescape], .inr ⟨false, rfl⟩⟩
  | cons_cons c d cs ih ih' =>
    by_cases hescape : c = '\\'
    · rw [hescape]
      exact ih.cons (.escaped d)
    by_cases hmark : c = quote.mark
    · exact ⟨[], .inl ⟨d :: cs, by rw [hmark]; rfl⟩⟩
    · exact (ih' d).cons (.plain c hmark hescape)

namespace SegmentedLine

/-- The line with a segment before all others. -/
def cons (s : LineSegment) (l : SegmentedLine) : SegmentedLine := ⟨s :: l.segments, l.unclosed⟩

theorem chars_cons (s : LineSegment) (l : SegmentedLine) :
    (l.cons s).chars = s.chars ++ l.chars := by
  simp [cons, chars]

theorem exists_chars_eq (cs : List Char) : ∃ l : SegmentedLine, l.chars = cs := by
  induction hn : cs.length using Nat.strongRecOn generalizing cs with
  | ind n ih =>
    cases cs with
    | nil => exact ⟨⟨[], none⟩, rfl⟩
    | cons c cs =>
      by_cases hquote : ∃ q : QuoteKind, c = q.mark
      · obtain ⟨q, rfl⟩ := hquote
        obtain ⟨body, ⟨rest, rfl⟩ | ⟨dangling, rfl⟩⟩ := literalTail q cs
        · obtain ⟨l, hl⟩ := ih rest.length (by rw [← hn]; simp; omega) rest rfl
          exact ⟨l.cons (.literal q body), by rw [chars_cons, hl]; simp [LineSegment.chars]⟩
        · exact ⟨⟨[], some ⟨q, body, dangling⟩⟩, rfl⟩
      · obtain ⟨l, hl⟩ := ih cs.length (by rw [← hn]; simp) cs rfl
        have hcode : ∀ q : QuoteKind, q.mark ∉ [c] := fun q hq =>
          hquote ⟨q, (List.mem_singleton.1 hq).symm⟩
        exact ⟨l.cons (.code [c] hcode), by rw [chars_cons, hl]; rfl⟩

/-- Every line has segments. -/
theorem exists_text_eq (line : String) : ∃ l : SegmentedLine, l.text = line := by
  obtain ⟨l, hl⟩ := exists_chars_eq line.toList
  exact ⟨l, by rw [text, hl, String.ofList_toList]⟩

end SegmentedLine

/-! ### The count, segment by segment -/

/-- Code adds its own braces. -/
theorem braceBalanceFrom_code {text : List Char} (h : ∀ q : QuoteKind, q.mark ∉ text)
    (rest : List Char) :
    braceBalanceFrom .outside (text ++ rest) =
      netBraces text + braceBalanceFrom .outside rest := by
  induction text with
  | nil => simp [netBraces]
  | cons c text ih =>
    have hsingle : c ≠ '\'' := fun hc => h .single (by simp [QuoteKind.mark, hc])
    have hdouble : c ≠ '"' := fun hc => h .double (by simp [QuoteKind.mark, hc])
    have hrest := ih fun q hq => h q (List.mem_cons_of_mem c hq)
    have hcons : netBraces (c :: text) = netBraces [c] + netBraces text := netBraces_append [c] text
    rw [List.cons_append, braceBalanceFrom, if_neg (by simp [hsingle, hdouble]), hrest, hcons]
    split
    · next hc =>
      subst hc
      have hone : netBraces ['{'] = 1 := rfl
      omega
    · next hopen =>
      split
      · next hc =>
        subst hc
        have hone : netBraces ['}'] = -1 := rfl
        omega
      · next hclose =>
        have hzero : netBraces [c] = 0 := by simp [netBraces, hopen, hclose]
        omega

/-- The body of a literal adds nothing and ends where it began. -/
theorem braceBalanceFrom_body {mark : Char} (body : List (LiteralUnit mark)) (rest : List Char) :
    braceBalanceFrom (.quoted mark) (body.flatMap LiteralUnit.chars ++ rest) =
      braceBalanceFrom (.quoted mark) rest := by
  induction body with
  | nil => rfl
  | cons u body ih =>
    rw [List.flatMap_cons, List.append_assoc]
    cases u with
    | plain c hmark hescape =>
      rw [LiteralUnit.chars, List.singleton_append, braceBalanceFrom, if_neg hescape,
        if_neg hmark, ih]
    | escaped c =>
      rw [LiteralUnit.chars, List.cons_append, braceBalanceFrom, if_pos rfl, List.singleton_append,
        braceBalanceFrom, ih]

/-- A quote leads into a literal that the same quote closes. -/
theorem braceBalanceFrom_mark (quote : QuoteKind) (rest : List Char) :
    braceBalanceFrom .outside (quote.mark :: rest) =
      braceBalanceFrom (.quoted quote.mark) rest := by
  cases quote <;> rfl

/-- A closing quote leads out of its literal. -/
theorem braceBalanceFrom_closing (quote : QuoteKind) (rest : List Char) :
    braceBalanceFrom (.quoted quote.mark) (quote.mark :: rest) =
      braceBalanceFrom .outside rest := by
  cases quote <;> rfl

theorem braceBalanceFrom_segment (s : LineSegment) (rest : List Char) :
    braceBalanceFrom .outside (s.chars ++ rest) =
      netBraces s.codeChars + braceBalanceFrom .outside rest := by
  cases s with
  | code text hquotes => exact braceBalanceFrom_code hquotes rest
  | literal quote body =>
    rw [LineSegment.chars, List.cons_append, List.append_assoc, List.singleton_append,
      braceBalanceFrom_mark, braceBalanceFrom_body, braceBalanceFrom_closing]
    simp [LineSegment.codeChars, netBraces]

theorem braceBalanceFrom_segments (segments : List LineSegment) (rest : List Char) :
    braceBalanceFrom .outside (segments.flatMap LineSegment.chars ++ rest) =
      netBraces (segments.flatMap LineSegment.codeChars) + braceBalanceFrom .outside rest := by
  induction segments with
  | nil => simp [netBraces]
  | cons s segments ih =>
    rw [List.flatMap_cons, List.append_assoc, braceBalanceFrom_segment, ih, List.flatMap_cons,
      netBraces_append, Int.add_assoc]

/-- A literal that is not closed adds nothing. -/
theorem OpenLiteral.braceBalanceFrom_chars (l : OpenLiteral) :
    braceBalanceFrom .outside l.chars = 0 := by
  rw [chars, braceBalanceFrom_mark, braceBalanceFrom_body]
  cases l.dangling <;> simp [braceBalanceFrom]

/-- **Braces in string literals do not count.**  However a line is put together from code and
literals, with a literal left open at its end or not, its balance is that of the code alone; and
every line is put together so. -/
theorem SegmentedLine.braceBalance_text :
    (∀ l : SegmentedLine,
      braceBalance l.text = (l.codeChars.count '{' : Int) - l.codeChars.count '}') ∧
    ∀ line : String, ∃ l : SegmentedLine, l.text = line := by
  refine ⟨fun l => ?_, exists_text_eq⟩
  have hunclosed : braceBalanceFrom .outside (l.unclosed.elim [] OpenLiteral.chars) = 0 := by
    cases l.unclosed with
    | none => rfl
    | some o => exact o.braceBalanceFrom_chars
  rw [braceBalance, text, String.toList_ofList, chars, braceBalanceFrom_segments, hunclosed,
    Int.add_zero]
  rfl

example : braceBalance "'\\'\x7b' \x7b \"\\\\\" \x7d \x7b '\x7d" = 1 := by decide +kernel

end StackScript
