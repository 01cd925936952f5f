import StackScript.Proofs.EscapeForms
import StackScript.Proofs.NearestDouble

/-!
# The number literals of JavaScript

The grammar of number literals as the language has it in scripts, the old octal and almost octal
forms included, each with its exact value.  Literals of unbounded integers are not among them.

Separators belong to the grammar, and the reader drops them before it looks at anything else.  What
is left of each part is plain digits (`IsDigits`), and the reader tells the forms apart by the first
two characters and by whether all are octal digits:

* `NumericLiteral.number?_rounds` : a literal is read as the double that its exact value is rounded
  to.
-/

namespace StackScript.JavaScript

open Literal Text

/-! ### The grammar -/

/-- A digit of a base up to sixteen, in either case, and its value. -/
def BaseDigit (base : ℕ) (c : Char) (d : ℕ) : Prop := d < base ∧ HexDigit c d

/-- Digits of a base, perhaps with separators between them; their value and their number. -/
inductive Digits (base : ℕ) : List Char → ℕ → ℕ → Prop
  | single {c : Char} {d : ℕ} (hc : BaseDigit base c d) : Digits base [c] d 1
  | concat {cs : List Char} {n k : ℕ} {c : Char} {d : ℕ} (hcs : Digits base cs n k)
    (hc : BaseDigit base c d) : Digits base (cs ++ [c]) (n * base + d) (k + 1)
  | separated {cs : List Char} {n k : ℕ} {c : Char} {d : ℕ} (hcs : Digits base cs n k)
    (hc : BaseDigit base c d) : Digits base (cs ++ ['_', c]) (n * base + d) (k + 1)

/-- Octal digits behind a zero, with their value in a base: eight if this is the whole literal, ten
if another digit follows later on. -/
inductive LegacyOctal (base : ℕ) : List Char → ℕ → Prop
  | single {c : Char} {d : ℕ} (hc : BaseDigit 8 c d) : LegacyOctal base ['0', c] d
  | concat {cs : List Char} {n : ℕ} {c : Char} {d : ℕ} (hcs : LegacyOctal base cs n)
    (hc : BaseDigit 8 c d) : LegacyOctal base (cs ++ [c]) (n * base + d)

/-- Decimal digits behind a zero, not all of them octal. -/
inductive NonOctal : List Char → ℕ → Prop
  | single {c : Char} {d : ℕ} (hc : BaseDigit 10 c d) (hd : 8 ≤ d) : NonOctal ['0', c] d
  | first {cs : List Char} {n : ℕ} {c : Char} {d : ℕ} (hcs : LegacyOctal 10 cs n)
    (hc : BaseDigit 10 c d) (hd : 8 ≤ d) : NonOctal (cs ++ [c]) (n * 10 + d)
  | concat {cs : List Char} {n : ℕ} {c : Char} {d : ℕ} (hcs : NonOctal cs n)
    (hc : BaseDigit 10 c d) : NonOctal (cs ++ [c]) (n * 10 + d)

/-- The digits before the point, and their value. -/
inductive DecimalInteger : List Char → ℕ → Prop
  | zero : DecimalInteger ['0'] 0
  | nonZero {c : Char} {d : ℕ} (hc : BaseDigit 10 c d) (hd : d ≠ 0) : DecimalInteger [c] d
  | longer {c : Char} {d : ℕ} {cs : List Char} {n k : ℕ} (hc : BaseDigit 10 c d) (hd : d ≠ 0)
    (hcs : Digits 10 cs n k) : DecimalInteger (c :: cs) (d * 10 ^ k + n)
  | separated {c : Char} {d : ℕ} {cs : List Char} {n k : ℕ} (hc : BaseDigit 10 c d) (hd : d ≠ 0)
    (hcs : Digits 10 cs n k) : DecimalInteger (c :: '_' :: cs) (d * 10 ^ k + n)
  | nonOctal {cs : List Char} {n : ℕ} (hcs : NonOctal cs n) : DecimalInteger cs n

/-- The digits behind the point, if there are any; their value and their number. -/
inductive Fraction : List Char → ℕ → ℕ → Prop
  | absent : Fraction [] 0 0
  | digits {cs : List Char} {n k : ℕ} (hcs : Digits 10 cs n k) : Fraction cs n k

/-- The exponent part, if there is one, and its value. -/
inductive ExponentPart : List Char → ℤ → Prop
  | absent : ExponentPart [] 0
  | unsigned {e : Char} {cs : List Char} {n k : ℕ} (he : e = 'e' ∨ e = 'E')
    (hcs : Digits 10 cs n k) : ExponentPart (e :: cs) n
  | plus {e : Char} {cs : List Char} {n k : ℕ} (he : e = 'e' ∨ e = 'E')
    (hcs : Digits 10 cs n k) : ExponentPart (e :: '+' :: cs) n
  | minus {e : Char} {cs : List Char} {n k : ℕ} (he : e = 'e' ∨ e = 'E')
    (hcs : Digits 10 cs n k) : ExponentPart (e :: '-' :: cs) (-n)

/-- The letters that mark a base behind a zero. -/
def baseMarks : List (ℕ × Char) := [(16, 'x'), (16, 'X'), (8, 'o'), (8, 'O'), (2, 'b'), (2, 'B')]

/-- A number literal and its exact value. -/
inductive NumericLiteral : List Char → ℚ → Prop
  | point {ws fs es : List Char} {w f k : ℕ} {p : ℤ} (hw : DecimalInteger ws w)
    (hf : Fraction fs f k) (he : ExponentPart es p) :
    NumericLiteral (ws ++ '.' :: (fs ++ es)) ((w + f * 10 ^ (-k : ℤ)) * 10 ^ p)
  | leadingPoint {fs es : List Char} {f k : ℕ} {p : ℤ} (hf : Digits 10 fs f k)
    (he : ExponentPart es p) : NumericLiteral ('.' :: (fs ++ es)) (f * 10 ^ (p - k))
  | whole {ws es : List Char} {w : ℕ} {p : ℤ} (hw : DecimalInteger ws w) (he : ExponentPart es p) :
    NumericLiteral (ws ++ es) (w * 10 ^ p)
  | marked {base : ℕ} {m : Char} {cs : List Char} {n k : ℕ} (hm : (base, m) ∈ baseMarks)
    (hcs : Digits base cs n k) : NumericLiteral ('0' :: m :: cs) n
  | legacyOctal {cs : List Char} {n : ℕ} (hcs : LegacyOctal 8 cs n) : NumericLiteral cs n

/-! ### Digits without separators -/

/-- The text without its separators. -/
def plainText (cs : List Char) : List Char := cs.filter (· ≠ '_')

theorem plainText_append (cs ds : List Char) :
    plainText (cs ++ ds) = plainText cs ++ plainText ds :=
  List.filter_append ..

theorem plainText_cons {c : Char} (hc : c ≠ '_') (cs : List Char) :
    plainText (c :: cs) = c :: plainText cs :=
  List.filter_cons_of_pos (by simpa using hc)

theorem plainText_separator (cs : List Char) : plainText ('_' :: cs) = plainText cs :=
  List.filter_cons_of_neg (by simp)

/-- Digits of a base and nothing else, their value and their number. -/
def IsDigits (base : ℕ) (cs : List Char) (n k : ℕ) : Prop :=
  ∃ ds, List.Forall₂ (BaseDigit base) cs ds ∧ ofDigits base ds = n ∧ ds.length = k

namespace BaseDigit

variable {base : ℕ} {c : Char} {d : ℕ}

theorem mono {base' : ℕ} (hle : base ≤ base') (h : BaseDigit base c d) : BaseDigit base' c d :=
  ⟨h.1.trans_le hle, h.2⟩

theorem radixDigit?_eq (h : BaseDigit base c d) : radixDigit? base c = some d := by
  have hhex := hexDigit?_eq_some_iff.2 h.2
  simp only [hexDigit?, Option.filter_eq_some_iff] at hhex
  simp [radixDigit?, hhex.1, h.1]

/-- What can be checked digit by digit. -/
theorem forall_of_all {p : Char → Prop} [DecidablePred p]
    (hall : ∀ d < base, p d.digitChar ∧ p d.digitChar.toUpper) (h : BaseDigit base c d) : p c := by
  obtain ⟨hd, -, rfl | rfl⟩ := h
  · exact (hall d hd).1
  · exact (hall d hd).2

/-- Digits are no separators, and no text around them is to be dropped. -/
theorem plain (h : BaseDigit 16 c d) : c ≠ '_' ∧ toAscii c = c ∧ isMargin c = false :=
  forall_of_all (p := fun c => c ≠ '_' ∧ toAscii c = c ∧ isMargin c = false) (by decide) h

theorem isDigit (h : BaseDigit 10 c d) : c.isDigit = true :=
  forall_of_all (p := fun c => c.isDigit = true) (by decide) h

end BaseDigit

theorem ofDigits_append (base : ℕ) (ds es : List ℕ) :
    ofDigits base (ds ++ es) = ofDigits base ds * base ^ es.length + ofDigits base es := by
  induction es using List.reverseRecOn with
  | nil => simp [ofDigits]
  | append_singleton es e ih =>
    have hconcat (ds : List ℕ) : ofDigits base (ds ++ [e]) = base * ofDigits base ds + e := by
      simp [ofDigits]
    rw [← List.append_assoc, hconcat, hconcat, ih, List.length_append, List.length_singleton]
    ring

namespace IsDigits

variable {base : ℕ} {cs cs' : List Char} {n n' k k' : ℕ}

theorem single {c : Char} {d : ℕ} (h : BaseDigit base c d) : IsDigits base [c] d 1 :=
  ⟨[d], .cons h .nil, by simp [ofDigits], rfl⟩

theorem append (h : IsDigits base cs n k) (h' : IsDigits base cs' n' k') :
    IsDigits base (cs ++ cs') (n * base ^ k' + n') (k + k') := by
  obtain ⟨ds, hds, rfl, rfl⟩ := h
  obtain ⟨ds', hds', rfl, rfl⟩ := h'
  exact ⟨ds ++ ds', List.rel_append hds hds', ofDigits_append base ds ds', List.length_append⟩

theorem concat {c : Char} {d : ℕ} (h : IsDigits base cs n k) (hc : BaseDigit base c d) :
    IsDigits base (cs ++ [c]) (n * base + d) (k + 1) := by
  simpa using h.append (single hc)

theorem forall_mem (h : IsDigits base cs n k) : ∀ c ∈ cs, ∃ d, BaseDigit base c d := by
  obtain ⟨ds, hds, -⟩ := h
  exact exists_of_forall₂ hds

theorem length_eq (h : IsDigits base cs n k) : cs.length = k := by
  obtain ⟨ds, hds, -, rfl⟩ := h
  exact hds.length_eq

theorem allDigits (h : IsDigits 10 cs n k) : AllDigits cs := by
  intro c hc
  obtain ⟨d, hd⟩ := h.forall_mem c hc
  exact hd.isDigit

theorem plainText_eq (hbase : base ≤ 16) (h : IsDigits base cs n k) : plainText cs = cs := by
  refine List.filter_eq_self.2 fun c hc => ?_
  obtain ⟨d, hd⟩ := h.forall_mem c hc
  simpa using (hd.mono hbase).plain.1

theorem exists_digits? (h : IsDigits base cs n k) (hk : 0 < k) :
    ∃ ds, digits? base cs = some ds ∧ ofDigits base ds = n := by
  obtain ⟨ds, hds, hn, rfl⟩ := h
  refine ⟨ds, ?_, hn⟩
  have hmap : cs.mapM (radixDigit? base) = some ds := by
    clear hn hk
    induction hds with
    | nil => rfl
    | cons hc _ ih => simp [List.mapM_cons, hc.radixDigit?_eq, ih]
  have hne : cs.isEmpty = false := by
    rw [List.isEmpty_eq_false_iff, ← List.length_pos_iff, hds.length_eq]
    exact hk
  simp [digits?, hne, hmap]

end IsDigits

theorem Digits.isDigits {base : ℕ} (hbase : base ≤ 16) {cs : List Char} {n k : ℕ}
    (h : Digits base cs n k) : IsDigits base (plainText cs) n k ∧ 0 < k := by
  induction h with
  | single hc =>
    rw [plainText_cons (hc.mono hbase).plain.1]
    exact ⟨.single hc, one_pos⟩
  | concat _ hc ih =>
    rw [plainText_append, plainText_cons (hc.mono hbase).plain.1]
    exact ⟨ih.1.concat hc, by omega⟩
  | separated _ hc ih =>
    rw [plainText_append, plainText_separator, plainText_cons (hc.mono hbase).plain.1]
    exact ⟨ih.1.concat hc, by omega⟩

/-! ### Integers of a base -/

theorem splitSign_eq_self {cs : List Char} (h : ∀ c ∈ cs.head?, c ≠ '-' ∧ c ≠ '+') :
    splitSign cs = (false, cs) := by
  cases cs with
  | nil => rfl
  | cons c cs =>
    obtain ⟨hminus, hplus⟩ := h c rfl
    simp [splitSign, hminus, hplus]

theorem dropMark_eq_self {letter : Char} {cs : List Char} (h : ∀ c ∈ cs, c.toLower ≠ letter) :
    dropMark letter cs = cs := by
  unfold dropMark
  split
  · next m rest => rw [if_neg (h m (by simp))]
  · rfl

/-- Digits of a base behind a sign are read as their value, if the letter that marks the base is
none of them. -/
theorem IsDigits.integer?_signText {base : ℕ} (hbase : base ≤ 16) {letter : Char}
    (hletter : ∀ c d, BaseDigit base c d → c.toLower ≠ letter) {cs : List Char} {n k : ℕ}
    (h : IsDigits base cs n k) (hk : 0 < k) (negative : Bool) :
    integer? base letter (signText negative ++ cs) = some (if negative then -(n : ℤ) else n) := by
  have hplain : ∀ c ∈ cs, toAscii c = c ∧ isMargin c = false := fun c hc => by
    obtain ⟨d, hd⟩ := h.forall_mem c hc
    exact (hd.mono hbase).plain.2
  have hcore : core (signText negative ++ cs) = signText negative ++ cs := by
    refine core_eq_self_of_forall (List.forall_mem_append.2 ⟨?_, hplain⟩)
    cases negative <;> exact forall_mem_of_all (by decide)
  have hsign : splitSign (signText negative ++ cs) = (negative, cs) := by
    cases negative with
    | true => rfl
    | false =>
      refine splitSign_eq_self fun c hc => ?_
      obtain ⟨d, hd⟩ := h.forall_mem c (List.mem_of_mem_head? hc)
      exact BaseDigit.forall_of_all (p := fun c => c ≠ '-' ∧ c ≠ '+') (by decide) (hd.mono hbase)
  have hmark : dropMark letter cs = cs := dropMark_eq_self fun c hc => by
    obtain ⟨d, hd⟩ := h.forall_mem c hc
    exact hletter c d hd
  obtain ⟨ds, hds, hn⟩ := h.exists_digits? hk
  simp [integer?, hcore, hsign, hmark, hds, hn]

theorem IsDigits.integer?_eq {base : ℕ} (hbase : base ≤ 16) {letter : Char}
    (hletter : ∀ c d, BaseDigit base c d → c.toLower ≠ letter) {cs : List Char} {n k : ℕ}
    (h : IsDigits base cs n k) (hk : 0 < k) : integer? base letter cs = some (n : ℤ) :=
  h.integer?_signText hbase hletter hk false

/-- The letter that marks a base is none of its digits. -/
theorem toLower_ne_of_mem_baseMarks {base : ℕ} {m : Char} (hm : (base, m) ∈ baseMarks) {c : Char}
    {d : ℕ} (h : BaseDigit base c d) : c.toLower ≠ m.toLower := by
  have hall : ∀ x ∈ baseMarks, ∀ d < x.1, d.digitChar.toLower ≠ x.2.toLower ∧
      d.digitChar.toUpper.toLower ≠ x.2.toLower := forall_mem_of_all (by decide)
  exact BaseDigit.forall_of_all (p := fun c => c.toLower ≠ m.toLower) (hall _ hm) h

theorem number?OfChars_marked {base : ℕ} {m : Char} (hm : (base, m) ∈ baseMarks)
    (rest : List Char) :
    number?OfChars ('0' :: m :: rest) = (integer? base m.toLower rest).map ofInteger := by
  simp only [baseMarks, List.mem_cons, Prod.mk.injEq, List.not_mem_nil, or_false] at hm
  rcases hm with ⟨rfl, rfl⟩ | ⟨rfl, rfl⟩ | ⟨rfl, rfl⟩ | ⟨rfl, rfl⟩ | ⟨rfl, rfl⟩ | ⟨rfl, rfl⟩ <;> rfl

/-- For integers without sign the infinity that is beyond all doubles is the right one. -/
theorem ofInteger_natCast (n : ℕ) : ofInteger n = Double.ofRatio false n 1 := by
  have hint : Double.ofInt n = Double.ofRatio false n 1 := by
    have hsign : decide ((n : ℤ) < 0) = false := decide_eq_false (by omega)
    rw [Double.ofInt, hsign, Int.natAbs_natCast]
  have hcases : (∃ a, Double.ofRatio false n 1 = .finite false a) ∨
      Double.ofRatio false n 1 = .infinity false := by
    obtain ⟨mant, exp, hpack⟩ := Double.exists_ofRatio_eq_pack n 1
    rw [hpack]
    unfold Double.pack
    split
    · exact .inl ⟨_, rfl⟩
    · exact .inr rfl
  unfold ofInteger Double.ofInt?
  rw [hint]
  obtain ⟨a, hfinite⟩ | hvast := hcases
  · rw [hfinite]
    rfl
  · rw [hvast]
    rfl

theorem rounds_natCast_iff {n : ℕ} {x : Double} : x.Rounds n ↔ x = ofInteger n := by
  have h : x.Rounds (n / (1 : ℕ)) ↔ _ := Double.rounds_iff one_pos
  rw [Nat.cast_one, div_one] at h
  rw [h, ofInteger_natCast, eq_comm]

/-- Without a mark, octal digits behind a zero are an octal number. -/
theorem number?OfChars_octal {c : Char} {rest : List Char}
    (h : ∀ d ∈ '0' :: c :: rest, isOctalDigit d = true) :
    number?OfChars ('0' :: c :: rest) = (integer? 8 'o' ('0' :: c :: rest)).map ofInteger := by
  have hmark : c ∉ baseMarks.map Prod.snd := fun hmem => by
    have hall : ∀ m ∈ baseMarks.map Prod.snd, isOctalDigit m = false :=
      forall_mem_of_all (by decide)
    exact absurd (h c (by simp)) (Bool.eq_false_iff.1 (hall c hmem))
  simp only [baseMarks, List.map_cons, List.map_nil, List.mem_cons, List.not_mem_nil, or_false,
    not_or] at hmark
  have hoctal : ('0' :: c :: rest).all isOctalDigit = true := List.all_eq_true.2 h
  unfold number?OfChars
  simp only [hmark, or_self, if_false, hoctal, if_true]

/-- Octal digits behind a zero are digits of ten as well as of eight. -/
theorem LegacyOctal.isDigits {base : ℕ} (hbase : 8 ≤ base) {cs : List Char} {n : ℕ}
    (h : LegacyOctal base cs n) :
    ∃ k, IsDigits base cs n k ∧ 0 < k ∧ (∀ c ∈ cs, ∃ d, BaseDigit 8 c d) ∧
      ∃ c rest, cs = '0' :: c :: rest := by
  have hzero : BaseDigit 8 '0' 0 := ⟨by decide, by decide⟩
  induction h with
  | @single c d hc =>
    have hdigits := (IsDigits.single (hzero.mono hbase)).concat (hc.mono hbase)
    rw [Nat.zero_mul, Nat.zero_add] at hdigits
    refine ⟨2, hdigits, two_pos, ?_, c, [], rfl⟩
    simp only [List.mem_cons, List.not_mem_nil, or_false, forall_eq_or_imp, forall_eq]
    exact ⟨⟨0, hzero⟩, d, hc⟩
  | @concat cs n c d _ hc ih =>
    obtain ⟨k, hdigits, hk, hoctal, c', rest, rfl⟩ := ih
    refine ⟨k + 1, hdigits.concat (hc.mono hbase), by omega, ?_, c', rest ++ [c], rfl⟩
    exact List.forall_mem_append.2 ⟨hoctal, by simpa using ⟨d, hc⟩⟩

/-! ### Decimal numbers -/

theorem NonOctal.isDigits {cs : List Char} {n : ℕ} (h : NonOctal cs n) :
    ∃ k, IsDigits 10 cs n k ∧ 0 < k ∧ ∃ c ∈ cs, isOctalDigit c = false := by
  have hzero : BaseDigit 10 '0' 0 := ⟨by decide, by decide⟩
  have hoctal {c : Char} {d : ℕ} (hc : BaseDigit 10 c d) (hd : 8 ≤ d) : isOctalDigit c = false := by
    have hall : ∀ d < 10, 8 ≤ d → isOctalDigit d.digitChar = false ∧
        isOctalDigit d.digitChar.toUpper = false := by decide
    obtain ⟨hlt, -, rfl | rfl⟩ := hc
    · exact (hall d hlt hd).1
    · exact (hall d hlt hd).2
  induction h with
  | @single c d hc hd =>
    have hdigits := (IsDigits.single hzero).concat hc
    rw [Nat.zero_mul, Nat.zero_add] at hdigits
    exact ⟨2, hdigits, two_pos, c, by simp, hoctal hc hd⟩
  | @first cs n c d hcs hc hd =>
    obtain ⟨k, hdigits, -⟩ := hcs.isDigits (by decide)
    exact ⟨k + 1, hdigits.concat hc, by omega, c, by simp, hoctal hc hd⟩
  | @concat cs n c d _ hc ih =>
    obtain ⟨k, hdigits, hk, c', hmem, hc'⟩ := ih
    exact ⟨k + 1, hdigits.concat hc, by omega, c', by simp [hmem], hc'⟩

/-- The characters of decimal literals. -/
def literalChars : List Char := 'E' :: numeralChars

theorem IsDigits.subset_literalChars {cs : List Char} {n k : ℕ} (h : IsDigits 10 cs n k) :
    cs ⊆ literalChars :=
  List.Subset.trans h.allDigits.subset_numeralChars (List.subset_cons_self _ _)

/-- The digits of a literal before the point: a zero may stand first only if nothing else does, or
if there is a digit that is not octal. -/
structure WholePart (cs : List Char) (n k : ℕ) : Prop where
  digits : IsDigits 10 cs n k
  first : cs = ['0'] ∨ cs.head? ≠ some '0' ∨ ∃ c ∈ cs, isOctalDigit c = false

theorem DecimalInteger.wholePart {cs : List Char} {n : ℕ} (h : DecimalInteger cs n) :
    ∃ k, WholePart (plainText cs) n k ∧ 0 < k := by
  have hfirst {c : Char} {d : ℕ} (hc : BaseDigit 10 c d) (hd : d ≠ 0) : c ≠ '0' := by
    have hall : ∀ d < 10, d ≠ 0 → d.digitChar ≠ '0' ∧ d.digitChar.toUpper ≠ '0' := by decide
    obtain ⟨hlt, -, rfl | rfl⟩ := hc
    · exact (hall d hlt hd).1
    · exact (hall d hlt hd).2
  have hplain {c : Char} {d : ℕ} (hc : BaseDigit 10 c d) : c ≠ '_' :=
    (hc.mono (by decide)).plain.1
  cases h with
  | zero => exact ⟨1, ⟨.single ⟨by decide, by decide⟩, .inl rfl⟩, one_pos⟩
  | nonZero hc hd =>
    rw [plainText_cons (hplain hc)]
    exact ⟨1, ⟨.single hc, .inr (.inl (by simpa using hfirst hc hd))⟩, one_pos⟩
  | longer hc hd hcs =>
    rw [plainText_cons (hplain hc)]
    obtain ⟨hdigits, hk⟩ := hcs.isDigits (by decide)
    exact ⟨_, ⟨(IsDigits.single hc).append hdigits, .inr (.inl (by simpa using hfirst hc hd))⟩,
      by omega⟩
  | separated hc hd hcs =>
    rw [plainText_cons (hplain hc), plainText_separator]
    obtain ⟨hdigits, hk⟩ := hcs.isDigits (by decide)
    exact ⟨_, ⟨(IsDigits.single hc).append hdigits, .inr (.inl (by simpa using hfirst hc hd))⟩,
      by omega⟩
  | nonOctal hcs =>
    obtain ⟨k, hdigits, hk, hoctal⟩ := hcs.isDigits
    rw [hdigits.plainText_eq (by decide)]
    exact ⟨k, ⟨hdigits, .inr (.inr hoctal)⟩, hk⟩

theorem Fraction.isDigits {cs : List Char} {n k : ℕ} (h : Fraction cs n k) :
    IsDigits 10 (plainText cs) n k := by
  cases h with
  | absent => exact ⟨[], .nil, rfl, rfl⟩
  | digits hcs => exact (hcs.isDigits (by decide)).1

/-- What the reader sees of an exponent part. -/
structure ExponentText (cs : List Char) (p : ℤ) : Prop where
  exponent?_eq : exponent? cs = some p
  head : ∀ c ∈ cs.head?, c = 'e' ∨ c = 'E'
  subset : cs ⊆ literalChars

theorem exponentText_cons {e : Char} (he : e = 'e' ∨ e = 'E') (sign : List Char) {cs : List Char}
    {negative : Bool} (hsign : splitSign (sign ++ cs) = (negative, cs))
    (hsubset : sign ⊆ literalChars) {n k : ℕ} (h : IsDigits 10 cs n k) (hk : 0 < k) :
    ExponentText (e :: (sign ++ cs)) (if negative then -n else n) := by
  obtain ⟨ds, hds, hn⟩ := h.exists_digits? hk
  refine ⟨?_, by simpa using he, ?_⟩
  · simp [exponent?, signed?, he, hsign, hds, hn]
  · refine List.cons_subset.2 ⟨?_, List.append_subset.2 ⟨hsubset, h.subset_literalChars⟩⟩
    rcases he with rfl | rfl <;> decide

theorem ExponentPart.exponentText {es : List Char} {p : ℤ} (h : ExponentPart es p) :
    ExponentText (plainText es) p := by
  have hplain {e : Char} (he : e = 'e' ∨ e = 'E') : e ≠ '_' := by
    rcases he with rfl | rfl <;> decide
  cases h with
  | absent => exact ⟨rfl, by simp [plainText], by simp [plainText]⟩
  | unsigned he hcs =>
    obtain ⟨hdigits, hk⟩ := hcs.isDigits (by decide)
    rw [plainText_cons (hplain he)]
    have hsign : splitSign ([] ++ plainText _) = (false, _) := splitSign_eq_self fun c hc => by
      obtain ⟨d, hd⟩ := hdigits.forall_mem c (List.mem_of_mem_head? hc)
      exact BaseDigit.forall_of_all (p := fun c => c ≠ '-' ∧ c ≠ '+') (by decide) hd
    exact exponentText_cons he [] hsign (by simp) hdigits hk
  | plus he hcs =>
    obtain ⟨hdigits, hk⟩ := hcs.isDigits (by decide)
    rw [plainText_cons (hplain he), plainText_cons (by decide)]
    exact exponentText_cons he ['+'] rfl (by decide) hdigits hk
  | minus he hcs =>
    obtain ⟨hdigits, hk⟩ := hcs.isDigits (by decide)
    rw [plainText_cons (hplain he), plainText_cons (by decide)]
    exact exponentText_cons he ['-'] rfl (by decide) hdigits hk

theorem number?OfChars_eq_decimal? {cs : List Char} (hmarks : ∀ c ∈ cs, c ∉ baseMarks.map Prod.snd)
    (hoctal : ∀ c rest, cs = '0' :: c :: rest → cs.all isOctalDigit = false) :
    number?OfChars cs = decimal? cs := by
  unfold number?OfChars
  split
  · next m rest =>
    have hm := hmarks m (by simp)
    simp only [baseMarks, List.map_cons, List.map_nil, List.mem_cons, List.not_mem_nil, or_false,
      not_or] at hm
    simp [hm, hoctal m rest rfl]
  · rfl

theorem decimal?_of_parts {c : Char} {cs : List Char} (hsubset : c :: cs ⊆ literalChars)
    (hc : c.isDigit = true ∨ c = '.') {coeff : ℕ} {p : ℤ}
    (hparts : decimalParts? (c :: cs) = some (coeff, p)) :
    decimal? (c :: cs) = some (.ofDecimal false coeff p) := by
  have hplain : ∀ c ∈ literalChars, toAscii c = c ∧ isMargin c = false :=
    forall_mem_of_all (by decide)
  have hcore : core (c :: cs) = c :: cs := core_eq_self_of_forall fun d hd => hplain d (hsubset hd)
  have hfirst : c ≠ '-' ∧ c ≠ '+' ∧ c.toLower ≠ 'i' ∧ c.toLower ≠ 'n' := by
    obtain hc | rfl := hc
    · have hall : ∀ d ∈ ['0', '1', '2', '3', '4', '5', '6', '7', '8', '9'],
          d ≠ '-' ∧ d ≠ '+' ∧ Char.toLower d ≠ 'i' ∧ Char.toLower d ≠ 'n' :=
        forall_mem_of_all (by decide)
      exact hall c (mem_digits_of_isDigit hc)
    · decide
  obtain ⟨hminus, hplus, hi, hn⟩ := hfirst
  have hsign : splitSign (c :: cs) = (false, c :: cs) :=
    splitSign_eq_self (by simpa using ⟨hminus, hplus⟩)
  unfold decimal?
  rw [hcore, hsign]
  simp [hi, hn, hparts]

section Decimal

variable {whole rest : List Char} {fraction : Option (List Char)} {w i f k : ℕ} {p : ℤ}

theorem exists_decimal_eq_cons (hwhole : IsDigits 10 whole w i)
    (hfraction : IsDigits 10 (fraction.getD []) f k) (hk : 0 < i + k) :
    ∃ c cs, whole ++ ((fraction.map ('.' :: ·)).getD [] ++ rest) = c :: cs ∧
      (c.isDigit = true ∨ c = '.') := by
  cases whole with
  | cons c cs => exact ⟨c, _, rfl, .inl (hwhole.allDigits c (by simp))⟩
  | nil =>
    cases fraction with
    | some ds => exact ⟨'.', _, rfl, .inr rfl⟩
    | none =>
      have hi := hwhole.length_eq
      have hk := hfraction.length_eq
      simp only [Option.getD_none, List.length_nil] at hi hk
      omega

/-- A literal with a zero in front has a character that is no octal digit. -/
theorem WholePart.all_isOctalDigit (hwhole : WholePart whole w i) (hrest : ExponentText rest p)
    {c : Char} {cs : List Char}
    (heq : whole ++ ((fraction.map ('.' :: ·)).getD [] ++ rest) = '0' :: c :: cs) :
    (whole ++ ((fraction.map ('.' :: ·)).getD [] ++ rest)).all isOctalDigit = false := by
  rw [List.all_eq_false]
  obtain rfl | hhead | ⟨d, hd, hoctal⟩ := hwhole.first
  · -- The character behind a lone zero is the point, or the letter of the exponent part.
    have htail : (fraction.map ('.' :: ·)).getD [] ++ rest = c :: cs := (List.cons.inj heq).2
    refine ⟨c, by rw [heq]; simp, ?_⟩
    cases fraction with
    | some ds =>
      obtain rfl : '.' = c := (List.cons.inj htail).1
      decide
    | none =>
      have hc := hrest.head c (by rw [show rest = c :: cs from htail]; rfl)
      rcases hc with rfl | rfl <;> decide
  · cases whole with
    | cons d ds => exact absurd (List.cons.inj heq).1 (by simpa using hhead)
    | nil =>
      cases fraction with
      | some ds => exact absurd (List.cons.inj heq).1 (by decide)
      | none =>
        have hc := hrest.head '0' (by rw [show rest = '0' :: c :: cs from heq]; rfl)
        exact absurd hc (by decide)
  · exact ⟨d, List.mem_append_left _ hd, by simp [hoctal]⟩

/-- Digits, perhaps with a point before, among or behind them, and an exponent part behind all. -/
theorem number?OfChars_decimal (fraction : Option (List Char)) (hwhole : WholePart whole w i)
    (hfraction : IsDigits 10 (fraction.getD []) f k) (hk : 0 < i + k)
    (hrest : ExponentText rest p) :
    number?OfChars (whole ++ ((fraction.map ('.' :: ·)).getD [] ++ rest)) =
      some (.ofDecimal false (w * 10 ^ k + f) (p - k)) := by
  have hnext : ∀ c ∈ rest.head?, c.isDigit = false ∧ c ≠ '.' := fun c hc => by
    rcases hrest.head c hc with rfl | rfl <;> decide
  have hpoint : rest.head? ≠ some '.' := fun h => (hnext '.' h).2 rfl
  obtain ⟨ds, hds, hvalue⟩ := (hwhole.digits.append hfraction).exists_digits? hk
  have hparts := decimalParts?_append hwhole.digits.allDigits hfraction.allDigits
    (fun c hc => (hnext c hc).1) hpoint hds hrest.exponent?_eq
  rw [hvalue, hfraction.length_eq] at hparts
  have hsubset : whole ++ ((fraction.map ('.' :: ·)).getD [] ++ rest) ⊆ literalChars := by
    refine List.append_subset.2 ⟨hwhole.digits.subset_literalChars,
      List.append_subset.2 ⟨?_, hrest.subset⟩⟩
    cases fraction with
    | none => simp
    | some ds => exact List.cons_subset.2 ⟨by decide, hfraction.subset_literalChars⟩
  have hmarks : ∀ c ∈ literalChars, c ∉ baseMarks.map Prod.snd := forall_mem_of_all (by decide)
  rw [number?OfChars_eq_decimal? (fun c hc => hmarks c (hsubset hc))
    fun c cs heq => hwhole.all_isOctalDigit hrest heq]
  obtain ⟨c, cs, hcons, hc⟩ := exists_decimal_eq_cons hwhole.digits hfraction hk
  rw [hcons] at hparts hsubset ⊢
  exact decimal?_of_parts hsubset hc hparts

end Decimal

/-! ### Literals -/

/-- The digits of a decimal as one number stand for what the grammar says. -/
theorem decimal_value (w f k : ℕ) (p : ℤ) : ((w : ℚ) + f * 10 ^ (-k : ℤ)) * 10 ^ p =
    (w * 10 ^ k + f : ℕ) * 10 ^ (p - k) := by
  have hpos : (10 : ℚ) ^ k ≠ 0 := by positivity
  rw [zpow_sub₀ (by norm_num), zpow_neg, zpow_natCast]
  push_cast
  field_simp

/-- Every literal is read, as the double that its value is rounded to. -/
theorem NumericLiteral.exists_rounds_iff {cs : List Char} {v : ℚ} (h : NumericLiteral cs v) :
    ∃ x, number?OfChars (plainText cs) = some x ∧ ∀ y : Double, y.Rounds v ↔ y = x := by
  cases h with
  | @point ws fs es w f k p hw hf he =>
    obtain ⟨i, hwhole, hi⟩ := hw.wholePart
    rw [plainText_append, plainText_cons (by decide), plainText_append]
    refine ⟨_, number?OfChars_decimal (some _) hwhole hf.isDigits (by omega) he.exponentText,
      fun y => ?_⟩
    rw [decimal_value, Double.rounds_decimal_iff, eq_comm]
  | @leadingPoint fs es f k p hf he =>
    obtain ⟨hdigits, hk⟩ := hf.isDigits (by decide)
    have hwhole : WholePart [] 0 0 := ⟨⟨[], .nil, rfl, rfl⟩, .inr (.inl (by simp))⟩
    rw [plainText_cons (by decide), plainText_append]
    refine ⟨_, number?OfChars_decimal (some _) hwhole hdigits (by omega) he.exponentText,
      fun y => ?_⟩
    rw [Double.rounds_decimal_iff, Nat.zero_mul, Nat.zero_add, eq_comm]
  | @whole ws es w p hw he =>
    obtain ⟨i, hwhole, hi⟩ := hw.wholePart
    have hfraction : IsDigits 10 (none.getD []) 0 0 := ⟨[], .nil, rfl, rfl⟩
    rw [plainText_append]
    refine ⟨_, number?OfChars_decimal none hwhole hfraction (by omega) he.exponentText,
      fun y => ?_⟩
    rw [Double.rounds_decimal_iff, Nat.pow_zero, Nat.mul_one, Nat.add_zero, Int.natCast_zero,
      Int.sub_zero, eq_comm]
  | @marked base m cs n k hm hcs =>
    have hall : ∀ x ∈ baseMarks, x.1 ≤ 16 ∧ x.2 ≠ '_' := forall_mem_of_all (by decide)
    obtain ⟨hbase, hplain⟩ := hall _ hm
    obtain ⟨hdigits, hk⟩ := hcs.isDigits hbase
    refine ⟨ofInteger n, ?_, fun y => rounds_natCast_iff⟩
    rw [plainText_cons (by decide), plainText_cons hplain, number?OfChars_marked hm,
      hdigits.integer?_eq hbase (fun _ _ => toLower_ne_of_mem_baseMarks hm) hk, Option.map_some]
  | @legacyOctal cs n hcs =>
    obtain ⟨k, hdigits, hk, hoctal, c, rest, rfl⟩ := hcs.isDigits le_rfl
    refine ⟨ofInteger n, ?_, fun y => rounds_natCast_iff⟩
    have hletter (c : Char) (d : ℕ) : BaseDigit 8 c d → c.toLower ≠ 'o' :=
      toLower_ne_of_mem_baseMarks (m := 'o') (by decide)
    have hread := hdigits.integer?_eq (by decide) hletter hk
    rw [hdigits.plainText_eq (by decide), number?OfChars_octal, hread, Option.map_some]
    intro d hd
    obtain ⟨n, hn⟩ := hoctal d hd
    exact BaseDigit.forall_of_all (p := fun c => isOctalDigit c = true) (by decide) hn

/-- **Number literals are correctly rounded.**  Every literal is read, as the one double that its
exact value is rounded to, and this is infinite exactly if the rounding overflows. -/
theorem NumericLiteral.number?_rounds {text : String} {v : ℚ} (h : NumericLiteral text.toList v) :
    ∃ x, Literal.number? text = some x ∧ (∀ y : Double, y.Rounds v ↔ y = x) ∧
      (x = .infinity false ↔ Double.overflowBound ≤ v) := by
  obtain ⟨x, hread, hrounds⟩ := h.exists_rounds_iff
  refine ⟨x, hread, hrounds, ?_⟩
  rw [eq_comm, ← hrounds]
  exact ⟨fun h => h.2, fun h => ⟨rfl, h⟩⟩

/-- A number that starts as an octal one and is decimal, with all further parts. -/
theorem NumericLiteral.number?_rounds_almostOctal :
    NumericLiteral "09.5_0E-1".toList (19 / 20) ∧
      ∃ x, Literal.number? "09.5_0E-1" = some x ∧ x.Rounds (19 / 20) := by
  have hdigit (d : ℕ) (hd : d < 10) : BaseDigit 10 d.digitChar d := ⟨hd, by omega, .inl rfl⟩
  have hwhole : DecimalInteger ['0', '9'] 9 :=
    .nonOctal (.single (hdigit 9 (by decide)) (by decide))
  have hfraction : Fraction ['5', '_', '0'] 50 2 :=
    .digits (.separated (.single (hdigit 5 (by decide))) (hdigit 0 (by decide)))
  have hexponent : ExponentPart ['E', '-', '1'] (-(1 : ℕ)) :=
    .minus (.inr rfl) (.single (hdigit 1 (by decide)))
  have hliteral : NumericLiteral "09.5_0E-1".toList (19 / 20) := by
    have hvalue : (19 / 20 : ℚ) =
        ((9 : ℕ) + (50 : ℕ) * 10 ^ (-(2 : ℕ) : ℤ)) * 10 ^ (-(1 : ℕ) : ℤ) := by norm_num
    rw [hvalue]
    exact .point hwhole hfraction hexponent
  obtain ⟨x, hread, hrounds, -⟩ := hliteral.number?_rounds
  exact ⟨hliteral, x, hread, (hrounds x).2 rfl⟩

end StackScript.JavaScript
