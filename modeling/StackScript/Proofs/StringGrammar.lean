import StackScript.Proofs.StringReading

/-!
# The string literals of JavaScript

The grammar of string literals as the language has it, octal escapes included, with the value of a
literal in sixteen-bit units.  Where an escape sequence ends may depend on what follows it, and the
rules say so one by one.

The reader finds the ends otherwise, by taking the longest form, and comes to the same result with
one exception: an octal escape that starts with four or more has no more than two digits, but the
reader takes a third one (`LongOctal`).

* `EscapeSequence.escape?_eq` : apart from that the reader takes what the grammar says;
* `StringCharacters.exists_reads` : what the reader makes of a literal, and what it loses;
* `StringLiteral.string_eq_value_iff` : hence it gives the value of a literal exactly if there is no
  such escape.
-/

namespace StackScript.JavaScript

open Literal Text

/-! ### The grammar -/

/-- Letters and signs that stand for a fixed character behind a backslash. -/
def singleEscapes : List (Char × Char) :=
  [('\'', '\''), ('"', '"'), ('\\', '\\')] ++ controls

/-- The text does not go on with an octal digit. -/
def NoOctalDigit (next : List Char) : Prop := ∀ c ∈ next.head?, ∀ n, ¬OctalDigit c n

/-- An escape sequence, what follows it, and its value. -/
inductive EscapeSequence : List Char → List Char → CodePoint → Prop
  | single {c d : Char} {next : List Char} (h : (c, d) ∈ singleEscapes) :
    EscapeSequence [c] next (.ofChar d)
  | nonEscape {c : Char} {next : List Char} (hsingle : ∀ d, (c, d) ∉ singleEscapes)
    (hdigit : c.isDigit = false) (hx : c ≠ 'x') (hu : c ≠ 'u') (hline : c ∉ lineEnds) :
    EscapeSequence [c] next (.ofChar c)
  /-- A zero that no decimal digit follows. -/
  | null {next : List Char} (hnext : ∀ c ∈ next.head?, c.isDigit = false) :
    EscapeSequence ['0'] next (.ofChar '\x00')
  /-- A zero before a digit that is not octal. -/
  | legacyNull {next : List Char} (hnext : ∃ c ∈ next.head?, c = '8' ∨ c = '9') :
    EscapeSequence ['0'] next (.ofChar '\x00')
  | oneOctal {c : Char} {n : Nat} {next : List Char} {p : CodePoint} (hc : OctalDigit c n)
    (hn : n ≠ 0) (hnext : NoOctalDigit next) (hp : p.val = ofDigits 8 [n]) :
    EscapeSequence [c] next p
  | twoOctals {c d : Char} {m n : Nat} {next : List Char} {p : CodePoint} (hc : OctalDigit c m)
    (hm : m ≤ 3) (hd : OctalDigit d n) (hnext : NoOctalDigit next)
    (hp : p.val = ofDigits 8 [m, n]) : EscapeSequence [c, d] next p
  /-- A third digit would go beyond eight bits, so whatever follows is not part of the escape. -/
  | twoHighOctals {c d : Char} {m n : Nat} {next : List Char} {p : CodePoint} (hc : OctalDigit c m)
    (hm : 4 ≤ m) (hd : OctalDigit d n) (hp : p.val = ofDigits 8 [m, n]) :
    EscapeSequence [c, d] next p
  | threeOctals {c d e : Char} {l m n : Nat} {next : List Char} {p : CodePoint}
    (hc : OctalDigit c l) (hl : l ≤ 3) (hd : OctalDigit d m) (he : OctalDigit e n)
    (hp : p.val = ofDigits 8 [l, m, n]) : EscapeSequence [c, d, e] next p
  | nonOctal {c : Char} {next : List Char} (hc : c = '8' ∨ c = '9') :
    EscapeSequence [c] next (.ofChar c)
  | hex {c d : Char} {m n : Nat} {next : List Char} {p : CodePoint} (hc : HexDigit c m)
    (hd : HexDigit d n) (hp : p.val = ofDigits 16 [m, n]) : EscapeSequence ['x', c, d] next p
  | unicode {ds : List Char} {ns : List Nat} {next : List Char} {p : CodePoint}
    (hds : List.Forall₂ HexDigit ds ns) (hlen : ds.length = 4) (hp : p.val = ofDigits 16 ns) :
    EscapeSequence ('u' :: ds) next p
  | braced {ds : List Char} {ns : List Nat} {next : List Char} {p : CodePoint}
    (hds : List.Forall₂ HexDigit ds ns) (hne : ds ≠ []) (hp : p.val = ofDigits 16 ns) :
    EscapeSequence ('u' :: '{' :: (ds ++ ['}'])) next p

/-- The end of a line, and what follows it. -/
inductive LineTerminatorSequence : List Char → List Char → Prop
  | lineFeed {next : List Char} : LineTerminatorSequence ['\n'] next
  | carriageReturn {next : List Char} (hnext : next.head? ≠ some '\n') :
    LineTerminatorSequence ['\r'] next
  | lineSeparator {next : List Char} : LineTerminatorSequence ['\u2028'] next
  | paragraphSeparator {next : List Char} : LineTerminatorSequence ['\u2029'] next
  | both {next : List Char} : LineTerminatorSequence ['\r', '\n'] next

/-- The characters between the quotes, and the units of their value. -/
inductive StringCharacters (quote : Char) : List Char → List CodeUnit → Prop
  | nil : StringCharacters quote [] []
  | source {c : Char} {cs : List Char} {us : List CodeUnit} (hquote : c ≠ quote)
    (hescape : c ≠ '\\') (hline : c ≠ '\n' ∧ c ≠ '\r') (h : StringCharacters quote cs us) :
    StringCharacters quote (c :: cs) ((CodePoint.ofChar c).units ++ us)
  | escape {e cs : List Char} {p : CodePoint} {us : List CodeUnit} (he : EscapeSequence e cs p)
    (h : StringCharacters quote cs us) : StringCharacters quote ('\\' :: (e ++ cs)) (p.units ++ us)
  | continuation {e cs : List Char} {us : List CodeUnit} (he : LineTerminatorSequence e cs)
    (h : StringCharacters quote cs us) : StringCharacters quote ('\\' :: (e ++ cs)) us

/-- A string literal and the units of its value. -/
def StringLiteral (text : String) (us : List CodeUnit) : Prop :=
  ∃ quote cs, (quote = '"' ∨ quote = '\'') ∧ text.toList = quote :: (cs ++ [quote]) ∧
    StringCharacters quote cs us

/-- The octal digits. -/
def octalDigits : List Char := ['0', '1', '2', '3', '4', '5', '6', '7']

/-- The octal digits that can start an escape of no more than two. -/
def highOctalDigits : List Char := ['4', '5', '6', '7']

/-- Three octal digits in a row where an escape of no more than two starts. -/
def LongOctal (cs : List Char) : Prop :=
  ∃ c ∈ highOctalDigits, ∃ d ∈ octalDigits, ∃ e ∈ octalDigits, [c, d, e] <+: cs

instance (cs : List Char) : Decidable (LongOctal cs) :=
  decidable_of_iff ((highOctalDigits.any fun c => octalDigits.any fun d => octalDigits.any fun e =>
    [c, d, e].isPrefixOf cs) = true) (by simp [LongOctal])

theorem not_longOctal_cons {c : Char} {cs : List Char} (hc : c ∉ highOctalDigits) :
    ¬LongOctal (c :: cs) := by
  rintro ⟨a, ha, b, -, e, -, rest, heq⟩
  obtain rfl : a = c := (List.cons.inj heq).1
  exact hc ha

/-! ### Reading an escape sequence -/

namespace EscapeSequence

variable {e next : List Char} {p : CodePoint}

theorem octalDigit_zero : OctalDigit '0' 0 := ⟨by decide, rfl⟩

theorem form (h : EscapeSequence e next p) : EscapeForm e (some p.val) := by
  cases h with
  | @single c d _ hcd =>
    obtain hcd | hcd := List.mem_append.1 hcd
    · have hothers : ∀ x ∈ [('\'', '\''), ('"', '"'), ('\\', '\\')], x.1 = x.2 ∧
          isOctalDigit x.1 = false ∧ isLineEnd x.1 = false ∧ control? x.1 = none :=
        forall_mem_of_all (by decide)
      obtain ⟨hsame, hoctal, hline, hcontrol⟩ := hothers _ hcd
      obtain rfl : c = d := hsame
      exact .of_plain hoctal hline hcontrol
    · exact .control hcd
  | nonEscape hsingle hdigit _ _ hline =>
    refine .itself (fun n hn => ?_) hline fun d hd => hsingle d (List.mem_append_right _ hd)
    exact absurd hn.isDigit (Bool.eq_false_iff.1 hdigit)
  | null | legacyNull => exact .octal (.cons octalDigit_zero .nil) (by simp) (by simp)
  | oneOctal hc _ _ hp =>
    rw [hp]
    exact .octal (.cons hc .nil) (by simp) (by simp)
  | twoOctals hc _ hd _ hp | twoHighOctals hc _ hd hp =>
    rw [hp]
    exact .octal (.cons hc (.cons hd .nil)) (by simp) (by simp)
  | threeOctals hc _ hd he hp =>
    rw [hp]
    exact .octal (.cons hc (.cons hd (.cons he .nil))) (by simp) (by simp)
  | nonOctal hc => rcases hc with rfl | rfl <;> exact .of_plain rfl rfl rfl
  | hex hc hd hp =>
    rw [hp]
    exact .hex (.cons hc (.cons hd .nil)) rfl
  | unicode hds hlen hp =>
    rw [hp]
    exact .unicode hds hlen
  | braced hds hne hp =>
    rw [hp]
    exact .braced hds hne

theorem mem_of_octalDigit {c : Char} {n : Nat} (h : OctalDigit c n) :
    c ∈ octalDigits ∧ (4 ≤ n → c ∈ highOctalDigits) := by
  have hall : ∀ n < 8, n.digitChar ∈ octalDigits ∧
      (4 ≤ n → n.digitChar ∈ highOctalDigits) := by decide
  rw [h.2]
  exact hall n h.1

theorem exists_octalDigit : ∀ c ∈ octalDigits, ∃ n, OctalDigit c n := by
  have hall : ∀ c ∈ octalDigits, isOctalDigit c = true := forall_mem_of_all (by decide)
  exact fun c hc => isOctalDigit_iff.1 (hall c hc)

theorem escape?_single {c : Char} (hform : EscapeForm [c] (some p.val)) (hu : c ≠ 'u')
    (hx : c ≠ 'x') (hline : c ≠ '\r') (hoctal : isOctalDigit c = false) :
    escape? ([c] ++ next) = some ⟨codePoint p.val, 1⟩ := by
  rw [List.singleton_append, escape?_plain hu hx (fun h => absurd h hline) hoctal,
    hform.plainEscape_eq hoctal]
  rfl

/-- The reader takes an escape sequence as a whole and no more, a long octal one apart. -/
theorem escape?_eq (h : EscapeSequence e next p) (hshort : ¬LongOctal (e ++ next)) :
    escape? (e ++ next) = some ⟨.ok (some p), e.length⟩ := by
  have hform := h.form
  rw [← codePoint_val]
  cases h with
  | single hcd =>
    have hothers : ∀ x ∈ singleEscapes, x.1 ≠ 'u' ∧ x.1 ≠ 'x' ∧ x.1 ≠ '\r' ∧
        isOctalDigit x.1 = false := forall_mem_of_all (by decide)
    obtain ⟨hu, hx, hline, hoctal⟩ := hothers _ hcd
    exact escape?_single hform hu hx hline hoctal
  | nonEscape _ hdigit hx hu hline =>
    refine escape?_single hform hu hx ?_ (isOctalDigit_eq_false_iff.2 fun n hn => ?_)
    · rintro rfl
      exact absurd (by decide) hline
    · exact absurd hn.isDigit (Bool.eq_false_iff.1 hdigit)
  | nonOctal hc =>
    rcases hc with rfl | rfl <;>
      exact escape?_single hform (by decide) (by decide) (by decide) (by decide)
  | null hnext =>
    refine escape?_octal (.cons octalDigit_zero .nil) (by simp) (by simp) fun _ c hc n hn => ?_
    exact absurd hn.isDigit (Bool.eq_false_iff.1 (hnext c hc))
  | legacyNull hnext =>
    refine escape?_octal (.cons octalDigit_zero .nil) (by simp) (by simp) fun _ d hd => ?_
    obtain ⟨c, hc, hdigit⟩ := hnext
    obtain rfl : c = d := Option.some.inj (hc.symm.trans hd)
    rcases hdigit with rfl | rfl <;> exact isOctalDigit_eq_false_iff.1 (by decide)
  | oneOctal hc _ hnext hp =>
    rw [hp]
    exact escape?_octal (.cons hc .nil) (by simp) (by simp) fun _ => hnext
  | twoOctals hc _ hd hnext hp =>
    rw [hp]
    exact escape?_octal (.cons hc (.cons hd .nil)) (by simp) (by simp) fun _ => hnext
  | twoHighOctals hc hm hd hp =>
    rw [hp]
    refine escape?_octal (.cons hc (.cons hd .nil)) (by simp) (by simp) fun _ f hf n hn => ?_
    obtain ⟨rest, rfl⟩ := List.head?_eq_some_iff.1 hf
    exact hshort ⟨_, (mem_of_octalDigit hc).2 hm, _, (mem_of_octalDigit hd).1, _,
      (mem_of_octalDigit hn).1, rest, rfl⟩
  | threeOctals hc _ hd he hp =>
    rw [hp]
    exact escape?_octal (.cons hc (.cons hd (.cons he .nil))) (by simp) (by simp)
      fun h => absurd h (by simp)
  | hex hc hd hp =>
    rw [hp]
    exact escape?_hex (.cons hc (.cons hd .nil)) rfl
  | unicode hds hlen hp =>
    rw [hp]
    exact escape?_unicode hds hlen
  | braced hds hne hp =>
    rw [hp]
    exact escape?_braced hds hne

/-- What a long octal escape is in the grammar: two digits, and a third one behind them. -/
theorem exists_of_longOctal (h : EscapeSequence e next p) (hlong : LongOctal (e ++ next)) :
    ∃ c d f l m n rest, e = [c, d] ∧ next = f :: rest ∧ OctalDigit c l ∧ OctalDigit d m ∧
      OctalDigit f n ∧ 4 ≤ l ∧ p.val = ofDigits 8 [l, m] := by
  have hsmall : ∀ n < 8, n ≤ 3 → n.digitChar ∉ highOctalDigits := by decide
  cases h with
  | single hcd =>
    have hothers : ∀ x ∈ singleEscapes, x.1 ∉ highOctalDigits := forall_mem_of_all (by decide)
    exact absurd hlong (not_longOctal_cons (hothers _ hcd))
  | nonEscape _ hdigit =>
    have hothers : ∀ c ∈ highOctalDigits, c.isDigit = true := forall_mem_of_all (by decide)
    exact absurd hlong (not_longOctal_cons fun hc => Bool.eq_false_iff.1 hdigit (hothers _ hc))
  | nonOctal hc => exact absurd hlong (not_longOctal_cons (by rcases hc with rfl | rfl <;> decide))
  | null | legacyNull | hex | unicode | braced =>
    exact absurd hlong (not_longOctal_cons (by decide))
  | twoOctals hc hm | threeOctals hc hm =>
    exact absurd hlong (not_longOctal_cons (hc.2 ▸ hsmall _ hc.1 hm))
  | oneOctal hc _ hnext =>
    obtain ⟨a, -, b, hb, f, -, rest, heq⟩ := hlong
    obtain rfl := (List.cons.inj heq).2
    obtain ⟨n, hn⟩ := exists_octalDigit b hb
    exact absurd hn (hnext b rfl n)
  | twoHighOctals hc hm hd hp =>
    obtain ⟨a, -, b, -, f, hf, rest, heq⟩ := hlong
    obtain rfl := (List.cons.inj (List.cons.inj heq).2).2
    obtain ⟨n, hn⟩ := exists_octalDigit f hf
    exact ⟨_, _, f, _, _, n, rest, rfl, rfl, hc, hd, hn, hm, hp⟩

end EscapeSequence

/-! ### Reading a literal -/

theorem LineTerminatorSequence.form {e next : List Char} (h : LineTerminatorSequence e next) :
    EscapeForm e none := by
  cases h with
  | both => exact .twoLineEnds
  | lineFeed | carriageReturn | lineSeparator | paragraphSeparator => exact .lineEnd (by decide)

theorem LineTerminatorSequence.escape?_eq {e next : List Char} (h : LineTerminatorSequence e next) :
    escape? (e ++ next) = some ⟨.ok none, e.length⟩ := by
  cases h with
  | both | lineFeed | lineSeparator | paragraphSeparator => rfl
  | carriageReturn hnext =>
    rw [List.singleton_append, escape?_plain (by decide) (by decide) _ (by decide)]
    · rfl
    · rintro - d hd rfl
      exact hnext hd

theorem LineTerminatorSequence.not_longOctal {e next : List Char}
    (h : LineTerminatorSequence e next) : ¬LongOctal (e ++ next) := by
  cases h <;> exact not_longOctal_cons (by decide)

/-- The reader takes code points from a text whose value has the given units.  It loses one unit
with each long octal escape, and surrogates stay where they are. -/
structure Reads (cs : List Char) (us : List CodeUnit) (ps : List CodePoint) (lost : Nat) :
    Prop where
  unescape_eq : unescape 0 cs = .ok ps
  continues_iff : ∀ high, CodeUnit.Continues high (CodePoint.encode ps) ↔ CodeUnit.Continues high us
  length_eq : (CodePoint.encode ps).length + lost = us.length
  eq_of_lost : lost = 0 → CodePoint.encode ps = us
  lost_iff : lost = 0 ↔ ∀ e ∈ escapes cs, ¬LongOctal e

namespace Reads

variable {cs : List Char} {us : List CodeUnit} {ps : List CodePoint} {lost : Nat}

theorem nil : Reads [] [] [] 0 where
  unescape_eq := rfl
  continues_iff _ := Iff.rfl
  length_eq := rfl
  eq_of_lost _ := rfl
  lost_iff := by simp [escapes]

theorem source {c : Char} (hc : c ≠ '\\') (h : Reads cs us ps lost) :
    Reads (c :: cs) ((CodePoint.ofChar c).units ++ us) (.ofChar c :: ps) lost where
  unescape_eq := by rw [unescape_plain hc, h.unescape_eq]; rfl
  continues_iff high := by simp [CodePoint.encode_cons, h.continues_iff]
  length_eq := by simp [CodePoint.encode_cons, ← h.length_eq, Nat.add_assoc]
  eq_of_lost hlost := by rw [CodePoint.encode_cons, h.eq_of_lost hlost]
  lost_iff := by rw [escapes_plain hc, h.lost_iff]

theorem escape {e : List Char} {p : Option CodePoint} (hform : EscapeForm e (p.map Fin.val))
    (hread : escape? (e ++ cs) = some ⟨.ok p, e.length⟩) (hshort : ¬LongOctal (e ++ cs))
    (h : Reads cs us ps lost) :
    Reads ('\\' :: (e ++ cs)) (CodePoint.encode p.toList ++ us) (p.toList ++ ps) lost where
  unescape_eq := by rw [unescape_escape hread, h.unescape_eq]; rfl
  continues_iff high := by cases p <;> simp [CodePoint.encode_cons, h.continues_iff]
  length_eq := by simp [CodePoint.encode_append, ← h.length_eq, Nat.add_assoc]
  eq_of_lost hlost := by rw [CodePoint.encode_append, h.eq_of_lost hlost]
  lost_iff := by rw [hform.escapes_append, List.forall_mem_cons, h.lost_iff]; simp [hshort]

/-- A long octal escape is taken with its third digit, and no surrogate is lost with it. -/
theorem longOctal {c d f : Char} {l m n : Nat} (hc : OctalDigit c l) (hl : 4 ≤ l)
    (hd : OctalDigit d m) (hf : OctalDigit f n) {p : CodePoint} (hp : p.val = ofDigits 8 [l, m])
    (h : Reads cs us ps lost) :
    ∃ q, Reads ('\\' :: ([c, d] ++ f :: cs)) (p.units ++ ((CodePoint.ofChar f).units ++ us))
      (q :: ps) (lost + 1) := by
  have hdigits : List.Forall₂ OctalDigit [c, d, f] [l, m, n] := .cons hc (.cons hd (.cons hf .nil))
  have hpval : p.val < 0xD800 := by
    rw [hp]
    exact Nat.lt_trans (ofDigits_octal_lt (.cons hc (.cons hd .nil)) (by simp)) (by decide)
  have hfval : (CodePoint.ofChar f).val < 0xD800 := by
    have hall : ∀ n < 8, n.digitChar.toNat < 0xD800 := by decide
    rw [hf.2]
    exact hall n hf.1
  have hqval : ofDigits 8 [l, m, n] < 0xD800 :=
    Nat.lt_trans (ofDigits_octal_lt hdigits (by simp)) (by decide)
  let q : CodePoint := ⟨ofDigits 8 [l, m, n], Nat.lt_trans hqval (by decide)⟩
  have hread : escape? ([c, d, f] ++ cs) = some ⟨.ok (some q), 3⟩ := by
    rw [escape?_octal hdigits (by simp) (by simp) fun h => absurd h (by simp), ← codePoint_val]
    rfl
  have hform : EscapeForm [c, d, f] (some q.val) := .octal hdigits (by simp) (by simp)
  have hlong : LongOctal ([c, d, f] ++ cs) :=
    ⟨c, (EscapeSequence.mem_of_octalDigit hc).2 hl, d, (EscapeSequence.mem_of_octalDigit hd).1, f,
      (EscapeSequence.mem_of_octalDigit hf).1, cs, rfl⟩
  obtain ⟨hphigh, hplow, hplength⟩ := CodePoint.units_of_lt hpval
  obtain ⟨hfhigh, hflow, hflength⟩ := CodePoint.units_of_lt hfval
  obtain ⟨hqhigh, hqlow, hqlength⟩ := CodePoint.units_of_lt (p := q) hqval
  have hescapes := hform.escapes_append cs
  refine ⟨q, ?_, fun high => ?_, ?_, fun h => absurd h (by simp), ?_⟩
  · exact (unescape_escape hread).trans (by rw [h.unescape_eq]; rfl)
  · simp [CodePoint.encode_cons, h.continues_iff, *]
  · simp [CodePoint.encode_cons, ← h.length_eq, hplength, hflength, hqlength]
    omega
  · refine ⟨fun h => absurd h (by simp), fun hall => absurd hlong (hall _ ?_)⟩
    exact hescapes ▸ List.mem_cons_self

end Reads

/-- What the reader makes of the characters of a literal. -/
theorem StringCharacters.exists_reads {quote : Char} {cs : List Char} {us : List CodeUnit}
    (h : StringCharacters quote cs us) : ∃ ps lost, Reads cs us ps lost := by
  -- A long octal escape is read together with the character behind it, so the hypothesis is needed
  -- for what follows that one: the induction is on the length.
  induction hlength : cs.length using Nat.strong_induction_on generalizing cs us with
  | h size ih =>
    cases h with
    | nil => exact ⟨_, _, .nil⟩
    | source _ hescape _ h =>
      obtain ⟨ps, lost, hreads⟩ := ih _ (by simp [← hlength]) h rfl
      exact ⟨_, _, hreads.source hescape⟩
    | @continuation e cs _ he h =>
      have hsmaller : cs.length < size := by
        rw [← hlength, List.length_cons, List.length_append]
        omega
      obtain ⟨ps, lost, hreads⟩ := ih cs.length hsmaller h rfl
      exact ⟨_, _, hreads.escape (p := none) he.form he.escape?_eq he.not_longOctal⟩
    | @escape e cs p us he h =>
      have hsmaller : cs.length < size := by
        rw [← hlength, List.length_cons, List.length_append]
        omega
      by_cases hlong : LongOctal (e ++ cs)
      · obtain ⟨c, d, f, l, m, n, cs, rfl, rfl, hc, hd, hf, hl, hp⟩ := he.exists_of_longOctal hlong
        have hescape : ∀ n, ¬OctalDigit '\\' n := isOctalDigit_eq_false_iff.1 (by decide)
        cases h with
        | escape | continuation => exact absurd hf (hescape n)
        | source _ _ _ h =>
          obtain ⟨ps, lost, hreads⟩ := ih cs.length (Nat.lt_of_succ_lt hsmaller) h rfl
          obtain ⟨q, hq⟩ := hreads.longOctal hc hl hd hf hp
          exact ⟨_, _, hq⟩
      · obtain ⟨ps, lost, hreads⟩ := ih cs.length hsmaller h rfl
        have hread := hreads.escape (p := some p) he.form (he.escape?_eq hlong) hlong
        have hunits : CodePoint.encode (some p).toList = p.units := List.append_nil p.units
        rw [hunits] at hread
        exact ⟨_, _, hread⟩

/-- **A literal is read as JavaScript defines it, long octal escapes apart.**  If the value of a
literal is well-formed, then the reader gives a text, and this is the value exactly if no octal
escape goes on with a third digit where its first one allows for two. -/
theorem StringLiteral.string_eq_value_iff {text : String} {us : List CodeUnit}
    (h : StringLiteral text us) (hus : CodeUnit.WellFormed us) :
    ∃ t, Literal.string text = .ok t ∧
      (Text.utf16 t = us ↔ ∀ e ∈ escapes (body text), ¬LongOctal e) := by
  obtain ⟨quote, cs, -, htext, hcs⟩ := h
  have hbody : body text = cs := by simp [body, htext]
  obtain ⟨ps, lost, hreads⟩ := hcs.exists_reads
  have hps : CodeUnit.WellFormed (CodePoint.encode ps) := (hreads.continues_iff false).2 hus
  obtain ⟨t, ht, hunits⟩ := exists_string_of_unescape (hbody ▸ hreads.unescape_eq) hps
  refine ⟨t, ht, ?_⟩
  rw [hunits, hbody, ← hreads.lost_iff]
  refine ⟨fun heq => ?_, hreads.eq_of_lost⟩
  have hlength := hreads.length_eq
  rw [heq] at hlength
  omega

/-- Octal escapes that end by their length and by what follows, and a code point in braces. -/
theorem StringLiteral.string_eq_value_adjacent :
    let text := "'\\101\\08\\u\x7b1F600\x7d'"
    StringLiteral text (utf16 "A\x008😀") ∧ ∃ t, Literal.string text = .ok t ∧
      utf16 t = utf16 "A\x008😀" := by
  intro text
  have hletter {next : List Char} : EscapeSequence ['1', '0', '1'] next (.ofChar 'A') :=
    .threeOctals (l := 1) (m := 0) (n := 1) (by decide) (by decide) (by decide) (by decide) rfl
  have hnull {next : List Char} : EscapeSequence ['0'] ('8' :: next) (.ofChar '\x00') :=
    .legacyNull ⟨'8', rfl, .inl rfl⟩
  have hdigits : List.Forall₂ HexDigit ['1', 'F', '6', '0', '0'] [1, 15, 6, 0, 0] := by decide
  have hbraced {next : List Char} :
      EscapeSequence ('u' :: '{' :: (['1', 'F', '6', '0', '0'] ++ ['}'])) next (.ofChar '😀') :=
    .braced hdigits (by decide) rfl
  have hcharacters : StringCharacters '\'' _ _ := .escape hletter (.escape hnull
    (.source (c := '8') (by decide) (by decide) (by decide) (.escape hbraced .nil)))
  have hliteral : StringLiteral text (utf16 "A\x008😀") :=
    ⟨'\'', _, .inr rfl, by decide, hcharacters⟩
  obtain ⟨t, ht, hvalue⟩ := hliteral.string_eq_value_iff (by decide)
  exact ⟨hliteral, t, ht, hvalue.2 (by decide)⟩

/-- The literal `'\400'` is a space and a zero, and it is read as one letter. -/
theorem StringLiteral.string_ne_value_longOctal :
    StringLiteral "'\\400'" (utf16 " 0") ∧ CodeUnit.WellFormed (utf16 " 0") ∧
      Literal.string "'\\400'" = .ok "Ā" ∧ utf16 "Ā" ≠ utf16 " 0" := by
  have hspace {next : List Char} : EscapeSequence ['4', '0'] next (.ofChar ' ') :=
    .twoHighOctals (m := 4) (n := 0) (by decide) (by decide) (by decide) rfl
  have hcharacters : StringCharacters '\'' _ _ := .escape hspace
    (.source (c := '0') (by decide) (by decide) (by decide) .nil)
  exact ⟨⟨'\'', _, .inr rfl, by decide, hcharacters⟩, by decide, by decide, by decide⟩

end StackScript.JavaScript
