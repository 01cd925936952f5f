import StackScript.Proofs.NumberSpelling

/-!
# Numbers as JavaScript writes them

`JavaScript.NumberText` is the rule of the language for the text of a finite number: the shortest
digits that are rounded to the number, laid out by the place of their point.  Listings lay digits
out by the same rule (`Double.spell_listing`), but write whole numbers below `10 ^ 21` with all
their digits, where the language fills the shortest ones up with zeros:

* `JavaScript.ShortestDigits.eq_of_lt` : below `2 ^ 53` the shortest digits of a whole number are
  exact;
* `Double.text_numberText_iff` : the rule is followed unless the number is whole, at least `2 ^ 53`
  and below `10 ^ 21`, and its shortest digits are not exact.
-/

namespace StackScript

namespace JavaScript

/-- Digits with their point behind the first `n` of them, as the language lays them out. -/
def layout (ds : List Char) (n : ℤ) : List Char :=
  if ds.length ≤ n ∧ n ≤ 21 then ds ++ List.replicate (n - ds.length).toNat '0'
  else if 0 < n ∧ n ≤ 21 then ds.take n.toNat ++ '.' :: ds.drop n.toNat
  else if -6 < n ∧ n ≤ 0 then '0' :: '.' :: (List.replicate (-n).toNat '0' ++ ds)
  else ds.take 1 ++ ((if ds.length = 1 then [] else '.' :: ds.drop 1) ++
    'e' :: (if n - 1 < 0 then '-' else '+') :: Nat.toDigits 10 (n - 1).natAbs)

/-- The text of a finite number.  Zero has no sign. -/
inductive NumberText : Double → List Char → Prop
  | zero (negative : Bool) : NumberText (.zero negative) ['0']
  | nonzero {a : Magnitude} {s k : ℕ} {n : ℤ} (negative : Bool) (ha : a ≠ .zero)
    (h : ShortestDigits a s k n) :
    NumberText (.finite negative a) (signText negative ++ layout (Nat.toDigits 10 s) n)

end JavaScript

open JavaScript

/-! ### The layout of listings -/

/-- Listings lay digits out as the language does. -/
theorem Double.spell_listing (d : Decimal) :
    listing.spell d = layout d.digits (d.power + 1) := by
  have hlength : 0 < d.digits.length := List.length_pos_iff.2 d.digits_ne_nil
  have hrange : listing.lowest = -6 ∧ listing.limit = 21 := ⟨rfl, rfl⟩
  by_cases hfull : listing.lowest ≤ d.power ∧ d.power < listing.limit
  · rw [Layout.spell, if_pos hfull, Decimal.positional]
    dsimp only
    by_cases hpoint : d.power + 1 ≤ 0
    · rw [if_pos hpoint, layout, if_neg (by omega), if_neg (by omega), if_pos (by omega)]
      rfl
    · rw [if_neg hpoint]
      by_cases hshort : d.digits.length ≤ (d.power + 1).toNat
      · have hzeros : (d.power + 1).toNat - d.digits.length =
            (d.power + 1 - d.digits.length).toNat := by
          omega
        have hpoint : listing.pointZero = false := rfl
        rw [if_pos hshort, hpoint, if_neg Bool.false_ne_true, List.append_nil, layout,
          if_pos (by omega), hzeros]
      · rw [if_neg hshort, layout, if_neg (by omega), if_pos (by omega)]
  · rw [Layout.spell, if_neg hfull, layout, if_neg (by omega), if_neg (by omega),
      if_neg (by omega), add_sub_cancel_right, Decimal.scientific, List.append_assoc]
    have hempty : (d.digits.drop 1).isEmpty = true ↔ d.digits.length = 1 := by
      rw [List.isEmpty_iff, List.drop_eq_nil_iff]
      omega
    have hzeros : listing.width - (Nat.toDigits 10 d.power.natAbs).length = 0 :=
      Nat.sub_eq_zero_of_le Nat.length_toDigits_pos
    simp only [hempty, hzeros, List.replicate_zero, List.nil_append]

theorem toDigits_mul_ten {n : ℕ} (hn : 0 < n) :
    Nat.toDigits 10 (n * 10) = Nat.toDigits 10 n ++ ['0'] := by
  rw [Nat.toDigits_of_base_le (by decide) (by omega)]
  simp

theorem toDigits_mul_pow {n : ℕ} (hn : 0 < n) (j : ℕ) :
    Nat.toDigits 10 (n * 10 ^ j) = Nat.toDigits 10 n ++ List.replicate j '0' := by
  induction j with
  | zero => simp
  | succ j ih =>
    rw [pow_succ, ← mul_assoc, toDigits_mul_ten (by positivity), ih, List.replicate_succ',
      List.append_assoc]

/-- Digits alone are laid out only with their point at the end. -/
theorem length_le_of_layout {ds : List Char} {n : ℤ} (h : AllDigits (layout ds n)) :
    ds.length ≤ n ∧ n ≤ 21 := by
  by_contra hnot
  unfold layout at h
  rw [if_neg hnot] at h
  split_ifs at h with hinside hbefore
  · exact absurd (h '.' (by simp)) (by decide)
  · exact absurd (h '.' (by simp)) (by decide)
  · exact absurd (h 'e' (by simp)) (by decide)
  · exact absurd (h 'e' (by simp)) (by decide)
  · exact absurd (h 'e' (by simp)) (by decide)
  · exact absurd (h 'e' (by simp)) (by decide)

theorem eq_of_layout_eq {s N : ℕ} {n : ℤ} (h : layout (Nat.toDigits 10 s) n = Nat.toDigits 10 N) :
    ∃ j : ℕ, n = Decimal.digitCount s + j ∧ N = s * 10 ^ j := by
  have hdigits := allDigits_toDigits N
  rw [← h] at hdigits
  obtain ⟨hle, hlarge⟩ := length_le_of_layout hdigits
  rw [layout, if_pos ⟨hle, hlarge⟩] at h
  generalize hj : (n - (Nat.toDigits 10 s).length).toNat = j at h
  refine ⟨j, ?_, ?_⟩
  · unfold Decimal.digitCount
    omega
  · calc N = Nat.ofDigitChars 10 (Nat.toDigits 10 N) 0 := Nat.ofDigitChars_ten_toDigits.symm
      _ = s * 10 ^ j := by rw [← h]; exact Decimal.ofDigitChars_digits_append ⟨s, 0⟩ j

/-! ### Whole numbers -/

namespace JavaScript

variable {a : Magnitude} {s k N : ℕ} {n : ℤ}

/-- The digits of a whole number represent it. -/
theorem represents_of_value (hN : 0 < N) (h : a.value = N) :
    Represents a N (Decimal.digitCount N) (Decimal.digitCount N) := by
  refine ⟨Nat.length_toDigits_pos, Magnitude.pow_le_of_digitCount hN,
    Magnitude.lt_pow_digitCount N, ?_⟩
  rw [sub_self, zpow_zero, mul_one, ← h]
  exact a.rounds_value

theorem Represents.digitCount_eq (h : Represents a s k n) : Decimal.digitCount s = k := by
  have hpos : 0 < Decimal.digitCount s := Nat.length_toDigits_pos
  have hle : Decimal.digitCount s ≤ k := (Nat.length_toDigits_le_iff (by decide) h.pos).2 h.upper
  by_contra hne
  have hfewer : Decimal.digitCount s ≤ k - 1 := by omega
  have hlt := (Nat.length_toDigits_le_iff (by decide) (by omega)).1 hfewer
  exact absurd h.lower (by omega)

/-- The text of a number other than zero. -/
theorem NumberText.exists_layout {negative : Bool} {cs : List Char}
    (h : NumberText (.finite negative a) cs) (ha : a ≠ .zero) :
    ∃ s k n, ShortestDigits a s k n ∧ cs = signText negative ++ layout (Nat.toDigits 10 s) n := by
  cases h with
  | zero => exact absurd rfl ha
  | nonzero _ _ h => exact ⟨_, _, _, h, rfl⟩

/-- Shortest digits are not farther away than others. -/
theorem ShortestDigits.abs_sub_le {s' k' : ℕ} {n' : ℤ} (h : ShortestDigits a s k n)
    (h' : ShortestDigits a s' k' n') :
    |s * 10 ^ (n - k) - a.value| ≤ |s' * 10 ^ (n' - k') - a.value| := by
  obtain rfl : k = k' :=
    (h.minimal _ _ _ h'.toRepresents).antisymm (h'.minimal _ _ _ h.toRepresents)
  exact h.closest _ _ h'.toRepresents

/-- **Below `2 ^ 53`, the shortest digits of a whole number are exact.** -/
theorem ShortestDigits.eq_of_lt (h : ShortestDigits a s k n) (hvalue : a.value = N)
    (hpos : 0 < N) (hN : N < 2 ^ 53) : (s * 10 ^ (n - k) : ℚ) = N := by
  have hself := represents_of_value hpos hvalue
  have hrounds := hvalue ▸ a.rounds_value
  -- As many digits as the number itself has are the nearest only if they are its own.
  rcases (h.minimal _ _ _ hself).eq_or_lt with hsame | hfewer
  · have hclosest := h.closest N k (hsame ▸ hself)
    rw [hvalue, sub_self, zpow_zero, mul_one, sub_self, abs_zero] at hclosest
    exact sub_eq_zero.1 (abs_nonpos_iff.1 hclosest)
  · generalize Decimal.digitCount N = count at hself hfewer
    have hk := h.pos
    rcases lt_or_ge n (count - 1) with hleft | hright
    · -- Too far to the left of the point, a shorter power of ten would be rounded to the number.
      exfalso
      have hpower : ((10 ^ (count - 2) : ℕ) : ℚ) = 10 ^ ((count : ℤ) - 2) := by
        have hexp : (count : ℤ) - 2 = (count - 2 : ℕ) := by omega
        rw [hexp, zpow_natCast]
        push_cast
        rfl
      have hbelow : 10 ^ (count - 2) < N :=
        (Nat.pow_lt_pow_right (by decide) (by omega)).trans_le hself.lower
      have hstep : (s * 10 ^ (n - k) : ℚ) ≤ (10 ^ (count - 2) : ℕ) := by
        rw [hpower]
        exact h.bounds.2.le.trans (ten_zpow_le (by omega))
      have hbetween := Magnitude.rounds_between h.rounds hrounds hstep (by exact_mod_cast hbelow.le)
      have heq := Magnitude.value_eq_of_rounds (by omega) hbetween
      rw [hvalue] at heq
      exact hbelow.ne' (by exact_mod_cast heq)
    · obtain ⟨j, hj⟩ : ∃ j : ℕ, n - k = j := ⟨(n - k).toNat, by omega⟩
      have hrep := h.rounds
      rw [hj, zpow_natCast] at hrep ⊢
      have hcast : (s * 10 ^ j : ℚ) = (s * 10 ^ j : ℕ) := by push_cast; rfl
      rw [hcast] at hrep ⊢
      generalize s * 10 ^ j = M at hrep ⊢
      rcases le_or_gt M (2 ^ 53) with hM | hM
      · rw [← hvalue, Magnitude.value_eq_of_rounds hM hrep]
      · -- Beyond `2 ^ 53` there may be gaps, but `2 ^ 53` itself lies between and is a double.
        have hbetween := Magnitude.rounds_between (v := (2 ^ 53 : ℕ)) hrounds hrep
          (by exact_mod_cast hN.le) (by exact_mod_cast hM.le)
        have heq := Magnitude.value_eq_of_rounds le_rfl hbetween
        rw [hvalue] at heq
        exact absurd (by exact_mod_cast heq) hN.ne

end JavaScript

/-! ### The text of a number -/

/-- A whole number that the language fills up with zeros, where its own digits are others. -/
def Magnitude.ZeroFilled (a : Magnitude) : Prop :=
  ∃ N : ℕ, 2 ^ 53 ≤ N ∧ N < 10 ^ 21 ∧ a.value = N ∧
    ∀ s k n, ShortestDigits a s k n → (s * 10 ^ (n - k) : ℚ) ≠ N

/-- A decimal without zeros at the end that is a whole number has no places behind the point. -/
theorem Decimal.exists_eq_mul_pow {d : Decimal} {N : ℕ} (hmod : d.coeff % 10 ≠ 0)
    (h : (d.coeff * 10 ^ d.exponent : ℚ) = N) :
    ∃ j : ℕ, d.exponent = j ∧ N = d.coeff * 10 ^ j := by
  rcases lt_or_ge d.exponent 0 with hneg | hnonneg
  · exfalso
    obtain ⟨j, hj⟩ : ∃ j : ℕ, d.exponent = -(j + 1 : ℕ) := ⟨(-d.exponent - 1).toNat, by omega⟩
    rw [hj, zpow_neg, zpow_natCast, ← div_eq_mul_inv, div_eq_iff (by positivity)] at h
    have hmul : d.coeff = N * 10 ^ (j + 1) := by exact_mod_cast h
    rw [hmul, pow_succ, ← mul_assoc, Nat.mul_mod_left] at hmod
    exact hmod rfl
  · obtain ⟨j, hj⟩ := Int.eq_ofNat_of_zero_le hnonneg
    refine ⟨j, hj, ?_⟩
    rw [hj, zpow_natCast] at h
    exact_mod_cast h.symm

namespace Double

variable {a : Magnitude} {N : ℕ}

/-- If the shortest digits are exact, they are filled up to all digits of the number. -/
theorem spell_shortest_of_exact (ha : a ≠ .zero) (hN : N < 10 ^ 21)
    (h : (a.shortest.coeff * 10 ^ a.shortest.exponent : ℚ) = N) :
    listing.spell a.shortest = Nat.toDigits 10 N := by
  obtain ⟨hshortest, hmod⟩ := Magnitude.shortestDigits_shortest ha
  obtain ⟨j, hj, rfl⟩ := Decimal.exists_eq_mul_pow hmod h
  have hpower : a.shortest.power + 1 = a.shortest.digits.length + j := by
    rw [← hj, ← a.shortest.power_sub_digitCount, Decimal.digitCount, Decimal.digits,
      add_sub_cancel]
  have hlength : 0 < a.shortest.digits.length := hshortest.pos
  have hlimit : 10 ^ (a.shortest.digits.length - 1 + j) < 10 ^ 21 := by
    rw [pow_add]
    exact (Nat.mul_le_mul_right _ hshortest.lower).trans_lt hN
  have hlimit := (Nat.pow_lt_pow_iff_right (by decide)).1 hlimit
  have hzeros : (a.shortest.digits.length + j - a.shortest.digits.length : ℤ).toNat = j := by omega
  rw [spell_listing, hpower, layout, if_pos (by omega), hzeros, toDigits_mul_pow (by omega)]
  rfl

/-- Whole numbers are written with all their digits. -/
theorem text_of_value (negative : Bool) (hN : N < 10 ^ 21) (h : a.value = N) :
    (finite negative a).text.toList =
      signText (negative && a ≠ .zero) ++ Nat.toDigits 10 N := by
  have hfull : a.InFull := Magnitude.inFull_iff.2 ⟨N, hN, h⟩
  rw [text_finite, String.toList_ofList, Magnitude.listingNumeral, if_pos hfull,
    Magnitude.div_units_of_value h]
  simp [Numeral.text, Json.integerNumeral, Numeral.fractionText, Numeral.exponentText]

/-- Other numbers are written as the language writes them. -/
theorem numberText_of_not_inFull (negative : Bool) (h : ¬a.InFull) :
    NumberText (finite negative a) (finite negative a).text.toList := by
  have ha := Magnitude.ne_zero_of_not_inFull h
  rw [text_finite, String.toList_ofList, Magnitude.listingNumeral, if_neg h,
    ← Layout.spell_eq_text, spell_listing, decide_eq_true ha, Bool.and_true]
  exact .nonzero negative ha (Magnitude.shortestDigits_shortest ha).1

/-- Whole numbers whose shortest digits are exact are written as the language writes them. -/
theorem numberText_of_exact (negative : Bool) (ha : a ≠ .zero) (hN : N < 10 ^ 21) (h : a.value = N)
    (hexact : (a.shortest.coeff * 10 ^ a.shortest.exponent : ℚ) = N) :
    NumberText (finite negative a) (finite negative a).text.toList := by
  rw [text_of_value negative hN h, decide_eq_true ha, Bool.and_true,
    ← spell_shortest_of_exact ha hN hexact, spell_listing]
  exact .nonzero negative ha (Magnitude.shortestDigits_shortest ha).1

/-- Unless the language fills it up with zeros, the shortest digits of a whole number are exact. -/
theorem shortest_of_not_zeroFilled (ha : a ≠ .zero) (hN : N < 10 ^ 21) (hvalue : a.value = N)
    (h : ¬a.ZeroFilled) : (a.shortest.coeff * 10 ^ a.shortest.exponent : ℚ) = N := by
  obtain ⟨hshortest, -⟩ := Magnitude.shortestDigits_shortest ha
  rw [← a.shortest.power_sub_digitCount]
  by_cases hsmall : N < 2 ^ 53
  · have hpos := Nat.pos_of_ne_zero (mt (Magnitude.eq_zero_iff_of_value hvalue).2 ha)
    exact hshortest.eq_of_lt hvalue hpos hsmall
  · by_contra hinexact
    refine h ⟨N, by omega, hN, hvalue, ?_⟩
    intro s k n hdigits hexact
    have hle := hshortest.abs_sub_le hdigits
    rw [hexact, hvalue, sub_self, abs_zero] at hle
    exact hinexact (sub_eq_zero.1 (abs_nonpos_iff.1 hle))

/-- A whole number that the language fills up with zeros is written otherwise. -/
theorem not_numberText_of_zeroFilled (negative : Bool) (h : a.ZeroFilled) :
    ¬NumberText (finite negative a) (finite negative a).text.toList := by
  obtain ⟨N, hlarge, hN, hvalue, hinexact⟩ := h
  have ha : a ≠ .zero := by
    intro ha
    have hzero := (Magnitude.eq_zero_iff_of_value hvalue).1 ha
    omega
  intro htext
  rw [text_of_value negative hN hvalue, decide_eq_true ha, Bool.and_true] at htext
  obtain ⟨s, k, n, hdigits, heq⟩ := htext.exists_layout ha
  obtain ⟨j, hj, rfl⟩ := eq_of_layout_eq (List.append_cancel_left heq).symm
  refine hinexact s k n hdigits ?_
  rw [hj, hdigits.digitCount_eq, add_sub_cancel_left, zpow_natCast]
  push_cast
  rfl

/-- **Listings follow the rule of the language** except for whole numbers that it fills up with
zeros.  These are written with all their digits. -/
theorem text_numberText_iff (negative : Bool) (a : Magnitude) :
    (NumberText (finite negative a) (finite negative a).text.toList ↔ ¬a.ZeroFilled) ∧
    ∀ N : ℕ, N < 10 ^ 21 → a.value = N → (finite negative a).text.toList =
      signText (negative && a ≠ .zero) ++ Nat.toDigits 10 N := by
  refine ⟨⟨?_, ?_⟩, fun N hN h => text_of_value negative hN h⟩
  · intro htext hfilled
    exact not_numberText_of_zeroFilled negative hfilled htext
  · intro hfilled
    by_cases hfull : a.InFull
    · obtain ⟨N, hN, hvalue⟩ := Magnitude.inFull_iff.1 hfull
      by_cases ha : a = .zero
      · have htext := text_of_value negative hN hvalue
        rw [decide_eq_false (not_not_intro ha), Bool.and_false,
          (Magnitude.eq_zero_iff_of_value hvalue).1 ha] at htext
        rw [htext, ha]
        exact .zero negative
      · exact numberText_of_exact negative ha hN hvalue
          (shortest_of_not_zeroFilled ha hN hvalue hfilled)
    · exact numberText_of_not_inFull negative hfull

/-- Two to the power of fifty-six. -/
def twoPow : Magnitude := ⟨Nat.pow 2 52, 1078, by decide +kernel⟩

theorem value_twoPow : twoPow.value = (72057594037927936 : ℕ) :=
  Magnitude.value_eq_natCast_iff.2 (by decide +kernel)

theorem shortestDigits_twoPow : ShortestDigits twoPow 7205759403792794 16 17 := by
  have hshortest : twoPow.shortest = ⟨7205759403792794, 1⟩ := by decide +kernel
  have hdigits := (Magnitude.shortestDigits_shortest (by decide +kernel : twoPow ≠ .zero)).1
  rw [hshortest] at hdigits
  exact hdigits

theorem zeroFilled_twoPow : twoPow.ZeroFilled := by
  refine ⟨72057594037927936, by norm_num, by norm_num, value_twoPow, ?_⟩
  intro s k n hdigits hexact
  have hle := shortestDigits_twoPow.abs_sub_le hdigits
  rw [hexact, value_twoPow, sub_self, abs_zero] at hle
  norm_num at hle

/-- A number that the language fills up with zeros, below zero. -/
theorem text_numberText_iff_twoPow :
    72057594037927936 < 10 ^ 21 ∧ twoPow.value = (72057594037927936 : ℕ) ∧
      (finite true twoPow).text.toList =
        signText (true && twoPow ≠ .zero) ++ Nat.toDigits 10 72057594037927936 ∧
      ¬NumberText (finite true twoPow) (finite true twoPow).text.toList := by
  obtain ⟨hiff, htext⟩ := text_numberText_iff true twoPow
  exact ⟨by norm_num, value_twoPow, htext _ (by norm_num) value_twoPow,
    fun h => hiff.1 h zeroFilled_twoPow⟩

/-- The language writes zero as the last digit, a listing shows six. -/
theorem text_twoPow_not_numberText :
    twoPow.value = (2 ^ 56 : ℕ) ∧
      NumberText (finite false twoPow) "72057594037927940".toList ∧
      (finite false twoPow).text = "72057594037927936" ∧
      ¬NumberText (finite false twoPow) (finite false twoPow).text.toList := by
  refine ⟨value_twoPow, ?_, by decide +kernel, ?_⟩
  · exact .nonzero false (by decide +kernel) shortestDigits_twoPow
  · exact not_numberText_of_zeroFilled false zeroFilled_twoPow

end Double

end StackScript
