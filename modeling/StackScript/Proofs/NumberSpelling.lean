import StackScript.Proofs.JsonNumber
import StackScript.Proofs.ShortestDecimal

/-!
# How listings spell numbers

A finite number is spelled in one of two ways: a whole number below `10 ^ 21` with all its digits
(`Magnitude.InFull`), any other by its shortest decimal, which is laid out plainly and then brought
into another form.  This form is again a layout of the shortest decimal:

* `Magnitude.inFull_of_rounds` : where the plain layout would end in a needless zero, the number is a
  whole one and is not spelled that way;
* `Double.restyle_spell` : restyling takes the plain layout to the layout `Double.listing`;
* `Double.text_finite` : hence the text of a finite number is its sign and one numeral.
-/

namespace StackScript

/-! ### Whole numbers -/

namespace Magnitude

variable {a : Magnitude} {M N : ℕ}

/-- A whole number that a listing writes with all its digits. -/
def InFull (a : Magnitude) : Prop :=
  a.units % Nat.pow 2 1074 = 0 ∧ a.units / Nat.pow 2 1074 < Nat.pow 10 21

instance : DecidablePred InFull := fun _ => inferInstanceAs (Decidable (_ ∧ _))

theorem units_eq_zero_iff : a.units = 0 ↔ a = .zero := by
  constructor
  · intro h
    refine eq_of_units_eq (h.trans ?_)
    rfl
  · rintro rfl
    rfl

theorem inFull_zero : InFull .zero := by
  have hunits : units .zero = 0 := rfl
  unfold InFull
  rw [hunits, Nat.zero_mod, Nat.zero_div]
  exact ⟨rfl, Double.ten_pow_pos 21⟩

theorem ne_zero_of_not_inFull (h : ¬a.InFull) : a ≠ .zero := by
  rintro rfl
  exact h inFull_zero

theorem InFull.div_eq_zero_iff (h : a.InFull) : a.units / Nat.pow 2 1074 = 0 ↔ a = .zero := by
  rw [← units_eq_zero_iff]
  have hexact := Nat.div_mul_cancel (Nat.dvd_of_mod_eq_zero h.1)
  have hunit := Double.two_pow_pos 1074
  generalize Nat.pow 2 1074 = unit at hexact hunit ⊢
  generalize a.units / unit = n at hexact ⊢
  rw [← hexact]
  simp [hunit.ne']

theorem value_eq_natCast_iff : a.value = N ↔ a.units = N * Nat.pow 2 1074 := by
  have hunit := Double.two_pow_pos 1074
  rw [value_eq_div]
  generalize Nat.pow 2 1074 = unit at hunit ⊢
  have hne : (unit : ℚ) ≠ 0 := by exact_mod_cast hunit.ne'
  rw [div_eq_iff hne]
  exact_mod_cast Iff.rfl

theorem eq_zero_iff_of_value (h : a.value = N) : a = .zero ↔ N = 0 := by
  have hunit := Double.two_pow_pos 1074
  rw [← units_eq_zero_iff, value_eq_natCast_iff.1 h]
  generalize Nat.pow 2 1074 = unit at hunit ⊢
  rw [Nat.mul_eq_zero, or_iff_left hunit.ne']

theorem div_units_of_value (h : a.value = N) : a.units / Nat.pow 2 1074 = N := by
  rw [value_eq_natCast_iff.1 h]
  exact Nat.mul_div_cancel N (Double.two_pow_pos 1074)

theorem inFull_iff : a.InFull ↔ ∃ N : ℕ, N < 10 ^ 21 ∧ a.value = N := by
  constructor
  · rintro ⟨hwhole, hsmall⟩
    refine ⟨_, hsmall, value_eq_natCast_iff.2 ?_⟩
    exact (Nat.div_mul_cancel (Nat.dvd_of_mod_eq_zero hwhole)).symm
  · rintro ⟨N, hsmall, hvalue⟩
    refine ⟨?_, ?_⟩
    · rw [value_eq_natCast_iff.1 hvalue]
      exact Nat.mul_mod_left N _
    · rw [div_units_of_value hvalue]
      exact hsmall

theorem exists_value_of_units {mant : ℕ} (exp : ℕ) (hmant : mant < 2 ^ 53) (hnormal : 2 ^ 52 ≤ mant)
    (hexp : exp ≤ 2045) (h : mant * 2 ^ exp = N * 2 ^ 1074) : ∃ b : Magnitude, b.value = N :=
  ⟨⟨mant, exp, hmant, hexp, .inr hnormal⟩, value_eq_natCast_iff.2 h⟩

/-- Whole numbers up to `2 ^ 53` are doubles. -/
theorem exists_value_eq (hN : N ≤ 2 ^ 53) : ∃ b : Magnitude, b.value = N := by
  by_cases hzero : N = 0
  · refine ⟨.zero, value_eq_natCast_iff.2 ?_⟩
    rw [hzero, Nat.zero_mul]
    rfl
  by_cases hpow : N = 2 ^ 53
  · have hshift (m : ℕ) : 2 ^ 52 * 2 ^ (m + 1) = 2 ^ 53 * 2 ^ m := by
      rw [pow_succ 2 m]
      omega
    rw [hpow]
    exact exists_value_of_units _ (by norm_num) le_rfl (by norm_num) (hshift 1074)
  · -- The bits of the number are moved up until the leading one stands at its place.
    have hlow : 2 ^ N.log2 ≤ N := Nat.log2_self_le hzero
    have hhigh : N < 2 ^ (N.log2 + 1) := Nat.lt_log2_self
    have hlog : N.log2 < 53 := (Nat.log2_lt hzero).2 (by omega)
    generalize N.log2 = p at hlow hhigh hlog
    have hmant : N * 2 ^ (52 - p) < 2 ^ 53 :=
      calc N * 2 ^ (52 - p) < 2 ^ (p + 1) * 2 ^ (52 - p) :=
            (Nat.mul_lt_mul_right (Nat.two_pow_pos _)).2 hhigh
        _ = 2 ^ 53 := by rw [← pow_add]; congr 1; omega
    have hnormal : 2 ^ 52 ≤ N * 2 ^ (52 - p) :=
      calc 2 ^ 52 = 2 ^ p * 2 ^ (52 - p) := by rw [← pow_add]; congr 1; omega
        _ ≤ N * 2 ^ (52 - p) := Nat.mul_le_mul_right _ hlow
    refine exists_value_of_units (p + 1022) hmant hnormal (by omega) ?_
    rw [mul_assoc, ← pow_add, show 52 - p + (p + 1022) = 1074 by omega]

/-- A whole number up to `2 ^ 53` is rounded to itself only. -/
theorem value_eq_of_rounds (hN : N ≤ 2 ^ 53) (h : (Double.finite false a).Rounds N) :
    a.value = N := by
  obtain ⟨b, hb⟩ := exists_value_eq hN
  have hle := h.2.2.le b
  rw [hb, sub_self, abs_zero] at hle
  exact sub_eq_zero.1 (abs_nonpos_iff.1 hle)

/-- Doubles from `2 ^ 53` on are whole numbers. -/
theorem exists_value_of_le (h : 2 ^ 53 ≤ a.value) : ∃ N : ℕ, a.value = N := by
  have hexp : 1074 ≤ a.exp := by
    by_contra hlt
    have hunits : a.units < 2 ^ 53 * 2 ^ 1074 :=
      Nat.mul_lt_mul'' a.canonical.1 (Nat.pow_lt_pow_right (by decide) (by omega))
    have hvalue : a.value < 2 ^ 53 := by
      rw [value, div_lt_iff₀ (two_pow_pos_rat 1074)]
      exact_mod_cast hunits
    exact absurd h (not_le.2 hvalue)
  refine ⟨a.mant * 2 ^ (a.exp - 1074), value_eq_natCast_iff.2 ?_⟩
  rw [units, Nat.pow_eq, Nat.pow_eq, mul_assoc, ← pow_add, Nat.sub_add_cancel hexp]

/-- **Whole numbers are rounded to whole numbers**, which have all their digits written out unless
they are very large. -/
theorem inFull_of_rounds (hM : M < 10 ^ 16) (h : (Double.finite false a).Rounds M) : a.InFull := by
  rcases le_or_gt M (2 ^ 53) with hsmall | hlarge
  · exact inFull_iff.2 ⟨M, by omega, value_eq_of_rounds hsmall h⟩
  · -- The double `2 ^ 53` is not nearer, which bounds the value from both sides.
    obtain ⟨b, hb⟩ := exists_value_eq (le_refl (2 ^ 53))
    have hM : (M : ℚ) < 10 ^ 16 := by exact_mod_cast hM
    have hlarge : (2 ^ 53 : ℚ) < M := by exact_mod_cast hlarge
    have hnear := h.2.2.le b
    rw [hb, Nat.cast_pow, Nat.cast_ofNat, abs_of_neg (sub_neg.2 hlarge)] at hnear
    obtain ⟨hlower, hupper⟩ := abs_le.1 hnear
    obtain ⟨N, hN⟩ := exists_value_of_le (a := a) (by linarith)
    refine inFull_iff.2 ⟨N, ?_, hN⟩
    rw [hN] at hupper
    have : (N : ℚ) < 10 ^ 21 := by linarith
    exact_mod_cast this

end Magnitude

/-! ### From the plain layout to that of listings -/

/-- Without zeros before the point, no zero is needed behind it. -/
theorem Decimal.positional_eq {d : Decimal} (h : d.exponent < 0) (pointZero pointZero' : Bool) :
    d.positional pointZero = d.positional pointZero' := by
  have hpower : d.power = d.digits.length + d.exponent - 1 := rfl
  unfold positional
  dsimp only
  split_ifs with hpoint hshort
  · rfl
  · omega
  · omega
  · omega
  · omega
  · rfl

/-- With its power as short as can be, a decimal is one digit, the others behind a point, and the
power. -/
theorem Decimal.scientific_one (d : Decimal) (width : ℕ) :
    d.scientific 1 = (d.divided 1 (some d.power) width).whole ++
      (d.divided 1 (some d.power) width).fractionText ++
      'e' :: (if d.power < 0 then '-' else '+') :: Nat.toDigits 10 d.power.natAbs := by
  have hzeros : 1 - (Nat.toDigits 10 d.power.natAbs).length = 0 :=
    Nat.sub_eq_zero_of_le Nat.length_toDigits_pos
  unfold scientific divided Numeral.fractionText
  dsimp only
  rw [hzeros]
  split_ifs
  · simp
  · simp
  · simp
  · simp

namespace Double

/-- Listings write powers from `-6` to `20` in full, without a needless point. -/
def listing : Layout := ⟨-6, 21, false, 1⟩

section Restyle

variable {d : Decimal} (negative : Bool)

theorem not_mem_of_allDigits {cs : List Char} (h : AllDigits cs) : 'e' ∉ cs := fun hmem =>
  absurd (h 'e' hmem) (by decide)

theorem not_mem_signText : 'e' ∉ signText negative := by
  cases negative <;> decide

/-- The letter of an exponent stands nowhere else. -/
theorem not_mem_mantissa {n : Numeral} (h : n.Proper) :
    'e' ∉ signText negative ++ n.whole ++ n.fractionText := by
  have hfraction : 'e' ∉ n.fractionText := by
    unfold Numeral.fractionText
    cases hf : n.fraction with
    | none => simp
    | some ds => simpa using not_mem_of_allDigits (h.fraction ds hf).2
  simp only [List.mem_append, not_or]
  exact ⟨⟨not_mem_signText negative, not_mem_of_allDigits h.whole⟩, hfraction⟩

/-- A numeral without an exponent stays as it is. -/
theorem restyle_of_exponent_eq_none {n : Numeral} (h : n.Proper) (hn : n.exponent = none) :
    restyle (signText negative ++ n.text) = signText negative ++ n.text := by
  have htext : signText negative ++ n.text = signText negative ++ n.whole ++ n.fractionText := by
    simp [Numeral.text, Numeral.exponentText, hn]
  rw [restyle, htext, if_pos (not_mem_mantissa negative h)]

/-- A numeral with an exponent is written in full, or loses the zeros in front of the power. -/
theorem restyle_of_exponent_eq_some {n : Numeral} {p : ℤ} (h : n.Proper) (hn : n.exponent = some p) :
    restyle (signText negative ++ n.text) = signText negative ++
      if -7 < p ∧ p < 21 then Decimal.positional ⟨n.coeff, n.power⟩ false
      else n.whole ++ n.fractionText ++
        'e' :: (if 0 < p then '+' else '-') :: Nat.toDigits 10 p.natAbs := by
  have hmantissa := not_mem_mantissa negative h
  have htext : signText negative ++ n.text = signText negative ++ n.whole ++ n.fractionText ++
      'e' :: (if p < 0 then '-' else '+') :: Numeral.powerDigits n.width p := by
    simp [Numeral.text, Numeral.exponentText, hn]
  have hbefore : ∀ c ∈ signText negative ++ n.whole ++ n.fractionText, decide (c ≠ 'e') = true := by
    intro c hc
    rw [decide_eq_true_eq]
    rintro rfl
    exact hmantissa hc
  have htake : (signText negative ++ n.text).takeWhile (· ≠ 'e') =
      signText negative ++ n.whole ++ n.fractionText := by
    rw [htext, List.takeWhile_append_of_pos hbefore]
    simp
  have hdrop : ((signText negative ++ n.text).dropWhile (· ≠ 'e')).drop 1 =
      (if p < 0 then '-' else '+') :: Numeral.powerDigits n.width p := by
    rw [htext, List.dropWhile_append_of_pos hbefore]
    simp
  have hsplit : Literal.splitSign (signText negative ++ n.text) = (negative, n.text) := by
    obtain ⟨c, cs, hcons, hc⟩ := n.exists_text_eq_cons h
    rw [hcons]
    exact Literal.splitSign_signText negative hc cs
  have hmem : ¬ 'e' ∉ signText negative ++ n.text := by
    rw [htext]
    simp
  unfold restyle
  simp only [if_neg hmem, htake, hdrop, hsplit, Numeral.signed?_powerDigits, Option.getD_some,
    n.decimalParts?_text h]
  by_cases hp : -7 < p ∧ p < 21
  · rw [if_pos hp, if_pos hp, signText]
  · rw [if_neg hp, if_neg hp]
    simp only [List.append_assoc]

/-- **Restyling takes the plain layout to that of listings.**  A needless zero behind the point would
stay, so a decimal that is laid out with one is left out. -/
theorem restyle_spell (hd : 0 < d.coeff) (hwhole : d.power < plain.limit → d.exponent < 0) :
    restyle (signText negative ++ plain.spell d) = signText negative ++ listing.spell d := by
  have hproper := plain.proper_numeral hd
  have hplain : plain.lowest = -4 ∧ plain.limit = 16 := ⟨rfl, rfl⟩
  have hlisting : listing.lowest = -6 ∧ listing.limit = 21 := ⟨rfl, rfl⟩
  by_cases hrange : plain.lowest ≤ d.power ∧ d.power < plain.limit
  · have hexponent : (plain.numeral d).exponent = none := by
      rw [Layout.exponent_numeral, if_pos hrange]
    rw [Layout.spell_eq_text, restyle_of_exponent_eq_none negative hproper hexponent,
      ← Layout.spell_eq_text, Layout.spell, Layout.spell, if_pos hrange, if_pos (by omega),
      Decimal.positional_eq (hwhole hrange.2)]
  · have hexponent : (plain.numeral d).exponent = some d.power := by
      rw [Layout.exponent_numeral, if_neg hrange]
    have hnumeral : plain.numeral d = d.divided 1 (some d.power) 2 := by
      rw [Layout.numeral, if_neg hrange]
      rfl
    rw [Layout.spell_eq_text, restyle_of_exponent_eq_some negative hproper hexponent, hnumeral,
      Layout.spell]
    congr 1
    by_cases hfull : -7 < d.power ∧ d.power < 21
    · have hpower : (d.divided 1 (some d.power) 2).power = d.exponent := by
        have hlength : 0 < d.digits.length := List.length_pos_iff.2 d.digits_ne_nil
        have hdef : d.power = d.digits.length + d.exponent - 1 := rfl
        rw [Decimal.power_divided, Option.getD_some]
        omega
      rw [if_pos hfull, if_pos (by omega), Decimal.coeff_divided, hpower]
      rfl
    · have hsign : (if 0 < d.power then '+' else '-') = if d.power < 0 then '-' else '+' := by
        split_ifs
        · omega
        · rfl
        · rfl
        · omega
      have hwidth : listing.width = 1 := rfl
      rw [if_neg hfull, if_neg (c := listing.lowest ≤ _ ∧ _) (by omega), hwidth,
        d.scientific_one 2, hsign]

end Restyle

end Double

/-! ### The numeral of a listing -/

/-- The numeral of a magnitude in a listing. -/
def Magnitude.listingNumeral (a : Magnitude) : Numeral :=
  if a.InFull then Json.integerNumeral (a.units / Nat.pow 2 1074 : ℕ)
  else Double.listing.numeral a.shortest

namespace Magnitude

theorem proper_listingNumeral (a : Magnitude) : a.listingNumeral.Proper := by
  unfold listingNumeral
  split_ifs with hfull
  · exact Json.proper_integerNumeral _
  · exact Double.listing.proper_numeral (Json.coeff_shortest_pos (ne_zero_of_not_inFull hfull))

/-- The numeral of a magnitude stands for it. -/
theorem ofDecimal_listingNumeral (negative : Bool) (a : Magnitude) :
    Double.ofDecimal negative a.listingNumeral.coeff a.listingNumeral.power =
      .finite negative a := by
  unfold listingNumeral
  split_ifs with hfull
  · have hunits := Double.ofRatio_units negative a
    have hunit := Double.two_pow_pos 1074
    have hcoeff (n : ℕ) : (Json.integerNumeral n).coeff = n := by
      simp [Json.integerNumeral, Numeral.coeff, Nat.ofDigitChars_ten_toDigits]
    have hpower (n : ℕ) : (Json.integerNumeral n).power = 0 := rfl
    have hexact := Nat.div_mul_cancel (Nat.dvd_of_mod_eq_zero hfull.1)
    rw [hcoeff, hpower, Double.ofDecimal_eq_ofRatio, ← hunits]
    generalize Nat.pow 2 1074 = unit at hunit hexact ⊢
    refine Double.ofRatio_congr negative (Double.ten_pow_pos _) hunit ?_
    simp [hexact]
  · rw [Layout.ofDecimal_numeral]
    exact a.ofDecimal_shortest negative

/-- A shortest decimal without places behind the point is that of a whole number. -/
theorem exponent_shortest_lt {a : Magnitude} (h : ¬a.InFull) (hpower : a.shortest.power < 16) :
    a.shortest.exponent < 0 := by
  by_contra hexponent
  obtain ⟨j, hj⟩ := Int.eq_ofNat_of_zero_le (not_lt.1 hexponent)
  have hrounds := Double.rounds_decimal_iff.2 (a.ofDecimal_shortest false)
  rw [hj, zpow_natCast] at hrounds
  refine h (inFull_of_rounds (M := a.shortest.coeff * 10 ^ j) ?_ (by exact_mod_cast hrounds))
  have hdigits := lt_pow_digitCount a.shortest.coeff
  have hdef := a.shortest.power_sub_digitCount
  calc a.shortest.coeff * 10 ^ j
      < 10 ^ Decimal.digitCount a.shortest.coeff * 10 ^ j := by gcongr
    _ = 10 ^ (Decimal.digitCount a.shortest.coeff + j) := (pow_add _ _ _).symm
    _ ≤ 10 ^ 16 := Nat.pow_le_pow_right (by decide) (by omega)

end Magnitude

namespace Double

open Magnitude

theorem filter_toInt?_of_inFull (negative : Bool) {a : Magnitude} (h : a.InFull) :
    (finite negative a).toInt?.filter (fun n => n.natAbs < Nat.pow 10 21) =
      some (if negative then -((a.units / Nat.pow 2 1074 : ℕ) : ℤ)
        else (a.units / Nat.pow 2 1074 : ℕ)) := by
  obtain ⟨hwhole, hsmall⟩ := h
  simp only [toInt?, if_pos hwhole]
  generalize a.units / Nat.pow 2 1074 = n at hsmall ⊢
  generalize Nat.pow 10 21 = bound at hsmall ⊢
  cases negative <;> simp [hsmall]

theorem filter_toInt?_of_not_inFull (negative : Bool) {a : Magnitude} (h : ¬a.InFull) :
    (finite negative a).toInt?.filter (fun n => n.natAbs < Nat.pow 10 21) = none := by
  unfold InFull at h
  by_cases hwhole : a.units % Nat.pow 2 1074 = 0
  · have hlarge : ¬a.units / Nat.pow 2 1074 < Nat.pow 10 21 := fun hsmall => h ⟨hwhole, hsmall⟩
    simp only [toInt?, if_pos hwhole]
    generalize a.units / Nat.pow 2 1074 = n at hlarge ⊢
    generalize Nat.pow 10 21 = bound at hlarge ⊢
    cases negative <;> simpa using hlarge
  · simp only [toInt?, if_neg hwhole]
    rfl

/-- A finite number is shown as its numeral, behind a minus sign if it is below zero. -/
theorem text_finite (negative : Bool) (a : Magnitude) :
    (finite negative a).text =
      String.ofList (signText (negative && a ≠ .zero) ++ a.listingNumeral.text) := by
  unfold text
  dsimp only
  by_cases hfull : a.InFull
  · have htext (n : ℕ) : (Json.integerNumeral n).text = Nat.toDigits 10 n := by
      simp [Numeral.text, Json.integerNumeral, Numeral.fractionText, Numeral.exponentText]
    have hzero := hfull.div_eq_zero_iff
    rw [filter_toInt?_of_inFull negative hfull, listingNumeral, if_pos hfull, htext]
    generalize a.units / Nat.pow 2 1074 = n at hzero ⊢
    -- Zero is the only number whose sign gets lost on the way through the integers.
    by_cases ha : a = .zero
    · obtain rfl := hzero.2 ha
      rw [decide_eq_false (not_not_intro ha), Bool.and_false]
      cases negative <;> rfl
    · have hn : 0 < n := Nat.pos_of_ne_zero (mt hzero.1 ha)
      rw [decide_eq_true ha, Bool.and_true]
      cases negative with
      | false => simp [signText]
      | true => simp [signText, hn]
  · have ha := ne_zero_of_not_inFull hfull
    rw [filter_toInt?_of_not_inFull negative hfull, listingNumeral, if_neg hfull,
      ← Layout.spell_eq_text, decide_eq_true ha, Bool.and_true, Layout.write, if_neg ha]
    exact congrArg String.ofList
      (restyle_spell negative (Json.coeff_shortest_pos ha) (exponent_shortest_lt hfull))

end Double

end StackScript
