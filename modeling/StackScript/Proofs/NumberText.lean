import StackScript.Proofs.NumberGrammar
import StackScript.Proofs.NumberSpelling
import StackScript.Proofs.QuotedText

/-!
# The text of a number is a literal

A listing shows a finite number as a numeral (`Magnitude.listingNumeral`), with a minus sign if it
is below zero.  The numeral stands for the number, and no mark of a base or octal form can be seen
in it, so it is read as a decimal number:

* `Double.number?_text` : the text of a number is read as the number, zero without a sign;
* `Double.text_eq_iff` : hence two numbers have one text only if they are equal.
-/

namespace StackScript

namespace Literal

open JavaScript Text

/-- A numeral behind a sign is no literal with a mark and no octal one. -/
theorem number?OfChars_signText (negative : Bool) {n : Numeral} (h : n.Proper) :
    number?OfChars (signText negative ++ n.text) =
      some (.ofDecimal negative n.coeff n.power) := by
  have hsubset := List.append_subset.2 ⟨Numeral.signText_subset negative, n.text_subset h⟩
  have hmarks : ∀ c ∈ numeralChars, c ∉ baseMarks.map Prod.snd := forall_mem_of_all (by decide)
  rw [number?OfChars_eq_decimal? (fun c hc => hmarks c (hsubset hc)), decimal?_text negative h]
  intro c rest heq
  have hc : isOctalDigit c = false := by
    cases negative with
    | true => cases heq
    | false =>
      -- Behind a zero in front comes the point or the exponent, never another digit.
      obtain ⟨d, ds, hd⟩ := List.exists_cons_of_ne_nil h.ne_nil
      have hzero : d = '0' := by
        unfold Numeral.text at heq
        rw [hd] at heq
        exact (List.cons.inj heq).1
      have hwhole := h.noZero (by rw [hd, hzero]; rfl)
      have htail : n.fractionText ++ n.exponentText = c :: rest := by
        unfold Numeral.text at heq
        rw [hwhole] at heq
        exact (List.cons.inj heq).2
      have hdigit := n.noDigit_tail c (by rw [htail]; rfl)
      refine isOctalDigit_eq_false_iff.2 fun k hk => ?_
      exact absurd hk.isDigit (by simp [hdigit])
  rw [heq]
  simp [hc]

/-- A text of numeral characters has no separators. -/
theorem number?_ofList {cs : List Char} (h : cs ⊆ numeralChars) :
    number? (String.ofList cs) = number?OfChars cs := by
  have hplain : ∀ c ∈ numeralChars, c ≠ '_' := forall_mem_of_all (by decide)
  unfold number?
  rw [String.toList_ofList, List.filter_eq_self.2]
  intro c hc
  simpa using hplain c (h hc)

end Literal

namespace Double

open Magnitude Literal

@[simp] theorem normalize_nan : nan.normalize = nan := rfl

@[simp] theorem normalize_infinity (negative : Bool) :
    (infinity negative).normalize = infinity negative := rfl

theorem normalize_finite (negative : Bool) (a : Magnitude) :
    (finite negative a).normalize = finite (negative && a ≠ .zero) a := by
  by_cases ha : a = .zero
  · rw [normalize, if_pos ha, decide_eq_false (not_not_intro ha), Bool.and_false, ha, zero]
  · rw [normalize, if_neg ha, decide_eq_true ha, Bool.and_true]

/-- **The text of a number is read as the number**, zero without a sign. -/
theorem number?_text (x : Double) : number? x.text = some x.normalize := by
  cases x with
  | nan => decide
  | infinity negative => cases negative <;> decide
  | finite negative a =>
    have hproper := a.proper_listingNumeral
    have hsubset := List.append_subset.2 ⟨Numeral.signText_subset (negative && a ≠ .zero),
      Numeral.text_subset hproper⟩
    rw [text_finite, number?_ofList hsubset, number?OfChars_signText _ hproper,
      ofDecimal_listingNumeral, normalize_finite]

theorem normalize_eq_iff {x y : Double} :
    x.normalize = y.normalize ↔ x.numEq y = true ∨ x = .nan ∧ y = .nan := by
  cases x with
  | nan => cases y <;> simp [normalize_finite, numEq]
  | infinity s => cases y <;> simp [normalize_finite, numEq]
  | finite s a =>
    cases y with
    | nan => simp [normalize_finite, numEq]
    | infinity t => simp [normalize_finite, numEq]
    | finite t b =>
      rw [normalize_finite, normalize_finite]
      by_cases hab : a = b
      · by_cases hb : b = .zero
        · simp [numEq, hab, hb]
        · simp [numEq, hab, hb]
      · simp [numEq, hab]

/-- The sign of zero is not shown. -/
theorem text_normalize (x : Double) : x.normalize.text = x.text := by
  cases x with
  | nan => rfl
  | infinity negative => rfl
  | finite negative a =>
    rw [normalize_finite, text_finite, text_finite]
    simp

/-- Two numbers are shown alike exactly if they are equal as numbers, or both not-a-number. -/
theorem text_eq_iff {x y : Double} :
    x.text = y.text ↔ x.numEq y = true ∨ x = .nan ∧ y = .nan := by
  rw [← normalize_eq_iff]
  constructor
  · intro h
    have hread := x.number?_text
    rw [h, number?_text] at hread
    exact (Option.some.inj hread).symm
  · intro h
    rw [← x.text_normalize, h, text_normalize]

end Double

/-- **The text of a number loses nothing.**  It is read as a number that is equal to the one shown.
Hence rows of listings look alike exactly if the numbers in them are equal, not-a-number apart. -/
theorem Double.text_faithful :
    (∀ negative a, ∃ y, Literal.number? (finite negative a).text = some y ∧
      y.numEq (finite negative a) = true) ∧
    ∀ {α β : Type} (first : Subject α) (second : Subject β) (row row' : Row) (x y : Double),
      first.Shows row (.number x) → second.Shows row' (.number y) →
        (row.operand = row'.operand ↔ x.numEq y = true ∨ x = .nan ∧ y = .nan) := by
  constructor
  · intro negative a
    refine ⟨_, number?_text _, ?_⟩
    rw [normalize_finite]
    by_cases ha : a = .zero
    · simp [numEq, ha]
    · simp [numEq, ha]
  · intro α β first second row row' x y hx hy
    rw [hx.operand_eq_iff hy]
    exact text_eq_iff

/-- Neighbours among the doubles, of which one is the sum of a tenth and two tenths. -/
theorem Double.text_faithful_tenths :
    let x := ofBits 0x3fd3333333333333
    let y := ofBits 0x3fd3333333333334
    let subject : Subject Unit := ⟨[1, 0, 1, 1, 0], [.number x, .number y], .empty [], true⟩
    ∃ row row', subject.Shows row (.number x) ∧ subject.Shows row' (.number y) ∧
      row.operand ≠ row'.operand := by
  intro x y subject
  have hfirst : subject.Shows ⟨0, [1, 0], some .const, "(" ++ x.text ++ ")", none⟩ (.number x) :=
    ⟨⟨0, 2, [], [], rfl⟩, rfl, 0, rfl, rfl⟩
  have hsecond : subject.Shows ⟨2, [1, 1], some .const, "(" ++ y.text ++ ")", none⟩ (.number y) :=
    ⟨⟨2, 4, [], [], rfl⟩, rfl, 1, rfl, rfl⟩
  have hsame := text_faithful.2 subject subject _ _ _ _ hfirst hsecond
  exact ⟨_, _, hfirst, hsecond, mt hsame.1 (by decide)⟩

end StackScript
