import StackScript.Proofs.Numeral

/-!
# Numbers in JSON text

Integers and numbers are written as numerals, and a numeral is read back as what it was written for:
`Json.bare?_integer`, `Json.bare?_number`.  Only integers can be too long to be read.
-/

namespace StackScript.Json

/-! ### Numbers -/

section Numbers

variable {n : Numeral}

theorem isWhole_of_proper (h : n.Proper) : isWhole n.whole = true := by
  have hall : n.whole.all Char.isDigit = true := List.all_eq_true.2 h.whole
  unfold isWhole
  split
  · next hnil => exact absurd hnil h.ne_nil
  · rfl
  · next cs hne hzero =>
    have := h.noZero (by rw [hzero]; rfl)
    rw [hzero] at this
    exact (hne (List.cons.inj this).2).elim
  · exact hall

theorem isExponent_exponentText {p : Int} (hp : n.exponent = some p) :
    isExponent n.exponentText = true := by
  have hdigits : (Numeral.powerDigits n.width p).all Char.isDigit = true :=
    List.all_eq_true.2 (Numeral.allDigits_powerDigits n.width p)
  unfold Numeral.exponentText isExponent
  rw [hp]
  by_cases hneg : p < 0
  · simp [hneg, Literal.splitSign, hdigits, Numeral.powerDigits_ne_nil]
  · simp [hneg, Literal.splitSign, hdigits, Numeral.powerDigits_ne_nil]

theorem splitMinus_signText (negative : Bool) {c : Char} (hc : c.isDigit) (cs : List Char) :
    splitMinus (signText negative ++ c :: cs) = (negative, c :: cs) := by
  cases negative with
  | true => rfl
  | false =>
    have hminus : c ≠ '-' := by rintro rfl; exact absurd hc (by decide)
    simp [signText, splitMinus, hminus]

/-- **Numerals in JSON.**  Without a point and a power they are integers, otherwise the nearest
double.  Too many digits before the point are refused. -/
theorem number?_text (negative : Bool) (h : n.Proper) :
    number? (signText negative ++ n.text) =
      if maxIntegerDigits < n.whole.length then none
      else if n.fraction.isNone && n.exponent.isNone then
        some (.int (if negative then -(n.coeff : Int) else n.coeff))
      else some (.float (.ofDecimal negative n.coeff n.power)) := by
  have hdecimal := Literal.decimal?_text negative h
  have hsplit : splitMinus (signText negative ++ n.text) = (negative, n.text) := by
    obtain ⟨c, cs, htext, hc⟩ := n.exists_text_eq_cons h
    rw [htext]
    exact splitMinus_signText negative hc cs
  have hwhole : n.text.takeWhile Char.isDigit = n.whole :=
    takeWhile_isDigit_append h.whole n.noDigit_tail
  have hrest : n.text.dropWhile Char.isDigit = n.fractionText ++ n.exponentText :=
    dropWhile_isDigit_append h.whole n.noDigit_tail
  have hint : Text.ofDigits 10 (n.whole.filterMap Text.asciiDigit?) =
      Nat.ofDigitChars 10 n.whole 0 := by
    rw [Text.filterMap_asciiDigit? h.whole, Text.ofDigits_map]
  have hfraction : (n.fraction == some []) = false := by
    cases hf : n.fraction with
    | none => rfl
    | some ds => simpa using (h.fraction ds hf).1
  have hexponent : (n.exponent.isNone || isExponent n.exponentText) = true := by
    cases he : n.exponent with
    | none => rfl
    | some p => simp [isExponent_exponentText he]
  have hempty : n.exponentText.isEmpty = n.exponent.isNone := by
    cases he : n.exponent <;> simp [Numeral.exponentText, he]
  unfold number?
  simp only [hsplit, hwhole, hrest, n.splitFraction_tail h, isWhole_of_proper h, hfraction,
    hexponent, hempty, hdecimal, hint]
  simp only [Bool.not_true, Bool.or_false, Bool.false_eq_true, if_false, Option.map_some]
  split
  · rfl
  split
  · next hplain =>
    obtain ⟨hf, -⟩ := Bool.and_eq_true_iff.1 hplain
    simp [Numeral.coeff, Option.isNone_iff_eq_none.1 hf]
  · rfl

theorem not_mem_letters {c : Char} (hc : c.isDigit) : c ∉ ['n', 't', 'f', 'N', 'I', '-'] := by
  intro hmem
  have hall : ∀ d ∈ ['n', 't', 'f', 'N', 'I', '-'], d.isDigit = false :=
    forall_mem_of_all (by decide)
  rw [hall c hmem] at hc
  exact absurd hc (by decide)

/-- What starts with a digit, perhaps behind a sign, is no name. -/
theorem bare?_of_isDigit (negative : Bool) {c : Char} (hc : c.isDigit) (cs : List Char) :
    bare? (signText negative ++ c :: cs) = number? (signText negative ++ c :: cs) := by
  have hletters := not_mem_letters hc
  have hname : ∀ w ∈ ["null", "true", "false", "NaN", "Infinity", "-Infinity"],
      String.ofList (signText negative ++ c :: cs) ≠ w := by
    intro w hw h
    have hlist : signText negative ++ c :: cs = w.toList := by rw [← h, String.toList_ofList]
    simp only [List.mem_cons, List.not_mem_nil, or_false] at hw
    rcases hw with rfl | rfl | rfl | rfl | rfl | rfl <;> cases negative <;>
      simp_all [signText]
  unfold bare?
  split
  · next h => exact absurd h (hname _ (by simp))
  · next h => exact absurd h (hname _ (by simp))
  · next h => exact absurd h (hname _ (by simp))
  · next h => exact absurd h (hname _ (by simp))
  · next h => exact absurd h (hname _ (by simp))
  · next h => exact absurd h (hname _ (by simp))
  · rfl

end Numbers

/-- The numeral of an integer without its sign. -/
def integerNumeral (n : Int) : Numeral := ⟨Nat.toDigits 10 n.natAbs, none, none, 1⟩

theorem proper_integerNumeral (n : Int) : (integerNumeral n).Proper where
  ne_nil := Nat.toDigits_ne_nil
  whole := allDigits_toDigits n.natAbs
  noZero := by
    intro h
    rcases Nat.eq_zero_or_pos n.natAbs with hzero | hpos
    · simp [integerNumeral, hzero]
    · exact absurd h (head?_toDigits hpos)
  fraction := by simp [integerNumeral]

theorem integer_eq (n : Int) : integer n = signText (n < 0) ++ (integerNumeral n).text := by
  simp [integer, signText, integerNumeral, Numeral.text, Numeral.fractionText,
    Numeral.exponentText]

/-- **Integers are read back** if they do not have too many digits. -/
theorem bare?_integer (n : Int) :
    bare? (integer n) = if Decimal.digitCount n.natAbs ≤ maxIntegerDigits then some (.int n) else none := by
  obtain ⟨c, cs, htext, hc⟩ := Numeral.exists_text_eq_cons (proper_integerNumeral n)
  have hcoeff : (integerNumeral n).coeff = n.natAbs := by
    simp [integerNumeral, Numeral.coeff, Nat.ofDigitChars_ten_toDigits]
  have hvalue : (if decide (n < 0) = true then -((integerNumeral n).coeff : Int)
      else (integerNumeral n).coeff) = n := by
    rw [hcoeff]
    by_cases h : n < 0
    · simp only [h, decide_true, if_true]
      omega
    · simp only [h, decide_false, Bool.false_eq_true, if_false]
      omega
  have hnumber := number?_text (decide (n < 0)) (proper_integerNumeral n)
  rw [← integer_eq, hvalue] at hnumber
  have hbare : bare? (integer n) = number? (integer n) := by
    rw [integer_eq, htext]
    exact bare?_of_isDigit _ hc cs
  have hcount : (integerNumeral n).whole.length = Decimal.digitCount n.natAbs := rfl
  rw [hbare, hnumber, hcount]
  by_cases h : Decimal.digitCount n.natAbs ≤ maxIntegerDigits
  · simp [h, Nat.not_lt.2 h, integerNumeral]
  · simp [h, Nat.not_le.1 h]

/-- The numeral of a magnitude. -/
def magnitudeNumeral (a : Magnitude) : Numeral :=
  if a = .zero then ⟨['0'], some ['0'], none, 1⟩ else numberLayout.numeral a.shortest

theorem number_finite (negative : Bool) (a : Magnitude) :
    number (.finite negative a) = signText negative ++ (magnitudeNumeral a).text := by
  rw [number, Layout.write, magnitudeNumeral]
  by_cases h : a = .zero
  · rw [if_pos h, if_pos h]
    rfl
  · rw [if_neg h, if_neg h, Layout.spell_eq_text, signText]

theorem coeff_shortest_pos {a : Magnitude} (ha : a ≠ .zero) : 0 < a.shortest.coeff :=
  Magnitude.coeff_pos_of_ofDecimal ha (a.ofDecimal_shortest false)

theorem magnitudeNumeral_zero : magnitudeNumeral .zero = ⟨['0'], some ['0'], none, 1⟩ := if_pos rfl

theorem magnitudeNumeral_of_ne {a : Magnitude} (ha : a ≠ .zero) :
    magnitudeNumeral a = numberLayout.numeral a.shortest :=
  if_neg ha

theorem proper_magnitudeNumeral (a : Magnitude) : (magnitudeNumeral a).Proper := by
  by_cases h : a = .zero
  · rw [h, magnitudeNumeral_zero]
    exact ⟨by simp, by simp [AllDigits], by simp, by simp [AllDigits]⟩
  · rw [magnitudeNumeral_of_ne h]
    exact numberLayout.proper_numeral (coeff_shortest_pos h)

theorem ofDecimal_magnitudeNumeral (negative : Bool) (a : Magnitude) :
    Double.ofDecimal negative (magnitudeNumeral a).coeff (magnitudeNumeral a).power =
      .finite negative a := by
  by_cases h : a = .zero
  · rw [h, magnitudeNumeral_zero]
    rfl
  · rw [magnitudeNumeral_of_ne h, Layout.ofDecimal_numeral]
    exact a.ofDecimal_shortest negative

/-- Numbers have few digits before the point. -/
theorem length_whole_numeral (d : Decimal) : (numberLayout.numeral d).whole.length ≤ 16 := by
  have hlimit : numberLayout.limit = 16 := rfl
  unfold Layout.numeral
  dsimp only
  split_ifs with hrange hpoint hshort hzero
  · simp [Decimal.shifted]
  · simp [Decimal.padded]
    omega
  · simp [Decimal.padded]
    omega
  · simp [Decimal.divided]
    omega
  · simp [Decimal.divided]

theorem length_whole_magnitudeNumeral (a : Magnitude) :
    (magnitudeNumeral a).whole.length ≤ 16 := by
  by_cases h : a = .zero
  · rw [h, magnitudeNumeral_zero]
    simp
  · rw [magnitudeNumeral_of_ne h]
    exact length_whole_numeral _

/-- Numbers have a point or a power of ten, which tells them from integers. -/
theorem point_or_power_numeral (d : Decimal) :
    ((numberLayout.numeral d).fraction.isNone && (numberLayout.numeral d).exponent.isNone) =
      false := by
  have hzero : numberLayout.pointZero = true := rfl
  unfold Layout.numeral
  dsimp only
  split_ifs with hrange hpoint hshort
  · simp [Decimal.shifted]
  · simp [Decimal.padded]
  · have hdrop : (d.digits.drop (d.power + 1).toNat).isEmpty = false := by simpa using hshort
    simp only [Decimal.divided, hdrop]
    rfl
  · simp [Decimal.divided]

theorem point_or_power (a : Magnitude) :
    ((magnitudeNumeral a).fraction.isNone && (magnitudeNumeral a).exponent.isNone) = false := by
  by_cases h : a = .zero
  · rw [h, magnitudeNumeral_zero]
    rfl
  · rw [magnitudeNumeral_of_ne h]
    exact point_or_power_numeral _

/-- **Numbers are read back.** -/
theorem bare?_number (x : Double) : bare? (number x) = some (.float x) := by
  cases x with
  | nan => rfl
  | infinity negative => cases negative <;> rfl
  | finite negative a =>
    obtain ⟨c, cs, htext, hc⟩ := Numeral.exists_text_eq_cons (proper_magnitudeNumeral a)
    have hnumber := number?_text negative (proper_magnitudeNumeral a)
    have hshort : ¬maxIntegerDigits < (magnitudeNumeral a).whole.length := by
      have := length_whole_magnitudeNumeral a
      unfold maxIntegerDigits
      omega
    rw [if_neg hshort, point_or_power a, if_neg (by decide), ofDecimal_magnitudeNumeral] at hnumber
    rw [number_finite, htext, bare?_of_isDigit negative hc cs, ← htext]
    exact hnumber

end StackScript.Json
