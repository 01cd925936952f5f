import Mathlib.Data.Nat.Log
import Mathlib.Tactic.Ring
import StackScript.Double.Shortest

/-!
# Rounding to doubles

`Double.ofRatio` sees only the value of the quotient, not the integers that it is written with
(`Double.ofRatio_congr`), and gives back every value that a double can hold
(`Double.ofRatio_units`).  The shortcuts of `Double.ofDecimal` are sound: it always gives what
`Double.ofRatio` gives for the exact quotient (`Double.ofDecimal_eq_ofRatio`).

Hence the decimal `Magnitude.shortest` reads back as the magnitude, whether it was found by search
or is the exact value (`Magnitude.ofDecimal_shortest`).
-/

namespace StackScript

/-! ### Quotients rounded to integers -/

theorem roundHalfEven_mul {k : Nat} (hk : 0 < k) (num den : Nat) :
    roundHalfEven (k * num) (k * den) = roundHalfEven num den := by
  unfold roundHalfEven
  have hlt (a b : Nat) : k * a < k * b ↔ a < b := Nat.mul_lt_mul_left hk
  simp only [Nat.mul_div_mul_left num den hk, Nat.mul_mod_mul_left, Nat.mul_left_comm 2 k, hlt]

theorem roundHalfEven_mul_self {den : Nat} (hden : 0 < den) (q : Nat) :
    roundHalfEven (q * den) den = q := by
  unfold roundHalfEven
  simp [Nat.mul_div_cancel q hden, hden]

theorem roundHalfEven_eq_zero {num den : Nat} (h : 2 * num < den) : roundHalfEven num den = 0 := by
  unfold roundHalfEven
  have hlt : num < den := by omega
  simp [Nat.div_eq_of_lt hlt, Nat.mod_eq_of_lt hlt, h]

theorem roundHalfEven_cases (num den : Nat) :
    roundHalfEven num den = num / den ∨ roundHalfEven num den = num / den + 1 := by
  unfold roundHalfEven
  dsimp only
  split_ifs <;> simp

namespace Double

/-! ### Quotients rounded to doubles -/

theorem ofRatio_mul (negative : Bool) {k : Nat} (hk : 0 < k) (num den : Nat) :
    ofRatio negative (k * num) (k * den) = ofRatio negative num den := by
  unfold ofRatio
  simp only [Nat.mul_assoc k, Nat.mul_div_mul_left _ _ hk, roundHalfEven_mul hk]

/-- Equal quotients are rounded to the same double. -/
theorem ofRatio_congr (negative : Bool) {num den num' den' : Nat} (hden : 0 < den)
    (hden' : 0 < den') (h : num * den' = num' * den) :
    ofRatio negative num den = ofRatio negative num' den' := by
  calc ofRatio negative num den
      = ofRatio negative (den' * num) (den' * den) := (ofRatio_mul negative hden' num den).symm
    _ = ofRatio negative (den * num') (den * den') := by
        rw [Nat.mul_comm den' num, h, Nat.mul_comm num' den, Nat.mul_comm den' den]
    _ = ofRatio negative num' den' := ofRatio_mul negative hden num' den'

theorem two_pow_pos (n : Nat) : 0 < Nat.pow 2 n := Nat.two_pow_pos n

theorem two_pow_mul_pos (m n : Nat) : 0 < Nat.pow 2 m * Nat.pow 2 n :=
  Nat.mul_pos (two_pow_pos m) (two_pow_pos n)

theorem ten_pow_pos (n : Nat) : 0 < Nat.pow 10 n := Nat.pow_pos (by decide)

theorem log2_mul_pow {m : Nat} (hm : m ≠ 0) (n : Nat) : (m * Nat.pow 2 n).log2 = m.log2 + n := by
  have hpos : 0 < 2 ^ n := Nat.two_pow_pos n
  rw [Nat.pow_eq, Nat.log2_eq_iff (Nat.mul_ne_zero hm hpos.ne'), Nat.pow_add, Nat.add_right_comm,
    Nat.pow_add]
  exact ⟨Nat.mul_le_mul_right _ (Nat.log2_self_le hm),
    (Nat.mul_lt_mul_right hpos).2 Nat.lt_log2_self⟩

/-- The scale of a magnitude can be seen from its units. -/
theorem log2_units (a : Magnitude) : a.units.log2 - 52 = a.exp := by
  obtain ⟨mant, exp, hmant, hexp, hnormal⟩ := a
  unfold Magnitude.units
  dsimp only
  by_cases hzero : mant = 0
  · subst hzero
    have : exp = 0 := hnormal.resolve_right (by decide)
    simp [this]
  · have hlt : mant.log2 < 53 := (Nat.log2_lt hzero).2 hmant
    rw [log2_mul_pow hzero]
    rcases hnormal with rfl | hnormal
    · omega
    · have hle : 52 ≤ mant.log2 := (Nat.le_log2 hzero).2 hnormal
      omega

theorem pack_magnitude (negative : Bool) (a : Magnitude) :
    pack negative a.mant a.exp = .finite negative a := by
  unfold pack
  rw [dif_pos a.canonical]

/-- Doubles are their own nearest doubles. -/
theorem ofRatio_units (negative : Bool) (a : Magnitude) :
    ofRatio negative a.units (Nat.pow 2 1074) = .finite negative a := by
  have hunit := two_pow_pos 1074
  have hden := two_pow_mul_pos 1074 a.exp
  have hmant : roundHalfEven (a.units * Nat.pow 2 1074) (Nat.pow 2 1074 * Nat.pow 2 a.exp) =
      a.mant := by
    rw [Magnitude.units, Nat.mul_assoc, Nat.mul_comm (Nat.pow 2 a.exp)]
    exact roundHalfEven_mul_self hden a.mant
  have hne : a.mant ≠ Nat.pow 2 53 := Nat.ne_of_lt a.canonical.1
  unfold ofRatio
  simp only [Nat.mul_div_cancel _ hunit, log2_units, hmant]
  rw [if_neg hne, pack_magnitude]

/-- Quotients from `2 ^ 1024` on are infinite. -/
theorem ofRatio_eq_infinity (negative : Bool) {num den k : Nat} (hden : 0 < den) (hk : 2098 ≤ k)
    (h : Nat.pow 2 k * den ≤ num * Nat.pow 2 1074) :
    ofRatio negative num den = .infinity negative := by
  have hscaled : Nat.pow 2 k ≤ num * Nat.pow 2 1074 / den := (Nat.le_div_iff_mul_le hden).2 h
  have hne : num * Nat.pow 2 1074 / den ≠ 0 := by
    have := two_pow_pos k
    omega
  have hlog : k ≤ (num * Nat.pow 2 1074 / den).log2 := (Nat.le_log2 hne).2 hscaled
  have hexp : ¬(num * Nat.pow 2 1074 / den).log2 - 52 ≤ 2045 := by omega
  have hexp' : ¬(num * Nat.pow 2 1074 / den).log2 - 52 + 1 ≤ 2045 := by omega
  unfold ofRatio pack
  simp only [hexp, hexp', false_and, and_false, dite_false, ite_self]

/-- Quotients below half of the least unit are zero. -/
theorem ofRatio_eq_zero (negative : Bool) {num den : Nat} (h : 2 * (num * Nat.pow 2 1074) < den) :
    ofRatio negative num den = zero negative := by
  have hlt : num * Nat.pow 2 1074 < den := by omega
  have hmant : roundHalfEven (num * Nat.pow 2 1074) den = 0 := roundHalfEven_eq_zero h
  have hexp : (num * Nat.pow 2 1074 / den).log2 - 52 = 0 := by
    rw [Nat.div_eq_of_lt hlt]
    rfl
  have hone : den * Nat.pow 2 0 = den := Nat.mul_one den
  unfold ofRatio
  simp only [hexp, hone, hmant]
  rfl

/-! ### Decimals -/

theorem two_pow_le_ten_pow (n : Nat) : Nat.pow 2 (3 * n) ≤ Nat.pow 10 n := by
  have height : Nat.pow 2 (3 * n) = 8 ^ n := Nat.pow_mul 2 3 n
  rw [height]
  exact Nat.pow_le_pow_left (by decide) n

theorem two_pow_le_mul_pow {coeff : Nat} (hcoeff : 0 < coeff) (m n : Nat) :
    Nat.pow 2 (3 * m + n) ≤ coeff * Nat.pow 10 m * Nat.pow 2 n :=
  calc Nat.pow 2 (3 * m + n) = Nat.pow 2 (3 * m) * Nat.pow 2 n := Nat.pow_add 2 _ _
    _ ≤ Nat.pow 10 m * Nat.pow 2 n := Nat.mul_le_mul_right _ (two_pow_le_ten_pow m)
    _ ≤ coeff * Nat.pow 10 m * Nat.pow 2 n :=
        Nat.mul_le_mul_right _ (Nat.le_mul_of_pos_left _ hcoeff)

theorem two_mul_pow_mul_pow (m n : Nat) :
    2 * (Nat.pow 2 (m + 1) * Nat.pow 2 n) = Nat.pow 2 (m + (n + 2)) := by
  simp only [Nat.pow_eq]
  ring

/-- A decimal is rounded as the exact quotient, whatever its size. -/
theorem ofDecimal_eq_ofRatio (negative : Bool) (coeff : Nat) (exponent : Int) :
    ofDecimal negative coeff exponent =
      ofRatio negative (coeff * Nat.pow 10 exponent.toNat) (Nat.pow 10 (-exponent).toNat) := by
  unfold ofDecimal
  dsimp only
  split_ifs with hzero hlarge hwhole hsmall
  · subst hzero
    refine (ofRatio_eq_zero negative ?_).symm
    simp only [Nat.zero_mul, Nat.mul_zero]
    exact ten_pow_pos _
  · have hplaces : (-exponent).toNat = 0 := by omega
    rw [hplaces]
    have hk : 2098 ≤ 3 * exponent.toNat + 1074 := by omega
    refine (ofRatio_eq_infinity negative (ten_pow_pos 0) hk ?_).symm
    rw [show Nat.pow 10 0 = 1 from rfl, Nat.mul_one]
    exact two_pow_le_mul_pow (Nat.pos_of_ne_zero hzero) exponent.toNat 1074
  · have hplaces : (-exponent).toNat = 0 := by omega
    rw [hplaces]
  · have hwhole : exponent.toNat = 0 := by omega
    rw [hwhole]
    refine (ofRatio_eq_zero negative ?_).symm
    have hlt : coeff < Nat.pow 2 (coeff.log2 + 1) := Nat.lt_log2_self
    have hunit := two_pow_pos 1074
    calc 2 * (coeff * Nat.pow 10 0 * Nat.pow 2 1074)
        = 2 * (coeff * Nat.pow 2 1074) := by simp only [Nat.pow_eq, Nat.pow_zero, Nat.mul_one]
      _ < 2 * (Nat.pow 2 (coeff.log2 + 1) * Nat.pow 2 1074) :=
          (Nat.mul_lt_mul_left (by decide)).2 ((Nat.mul_lt_mul_right hunit).2 hlt)
      _ = Nat.pow 2 (coeff.log2 + 1076) := two_mul_pow_mul_pow coeff.log2 1074
      _ ≤ Nat.pow 2 (3 * (-exponent).toNat) := Nat.pow_le_pow_right (by decide) hsmall
      _ ≤ Nat.pow 10 (-exponent).toNat := two_pow_le_ten_pow _
  · have hwhole : exponent.toNat = 0 := by omega
    rw [hwhole]
    rw [show coeff * Nat.pow 10 0 = coeff from Nat.mul_one coeff]

/-- Zeros behind the coefficient can be moved to the exponent. -/
theorem ofDecimal_mul_ten (negative : Bool) (coeff : Nat) (exponent : Int) :
    ofDecimal negative (coeff * 10) exponent = ofDecimal negative coeff (exponent + 1) := by
  rw [ofDecimal_eq_ofRatio, ofDecimal_eq_ofRatio]
  refine ofRatio_congr negative (ten_pow_pos _) (ten_pow_pos _) ?_
  have hpow (n : Nat) : Nat.pow 10 (n + 1) = Nat.pow 10 n * 10 := rfl
  rcases lt_or_ge exponent 0 with h | h
  · have h₁ : exponent.toNat = 0 := by omega
    have h₂ : (exponent + 1).toNat = 0 := by omega
    have h₃ : (-exponent).toNat = (-(exponent + 1)).toNat + 1 := by omega
    rw [h₁, h₂, h₃, hpow]
    ring
  · have h₁ : (-exponent).toNat = 0 := by omega
    have h₂ : (-(exponent + 1)).toNat = 0 := by omega
    have h₃ : (exponent + 1).toNat = exponent.toNat + 1 := by omega
    rw [h₁, h₂, h₃, hpow]
    ring

theorem ofDecimal_mul_pow (negative : Bool) (coeff : Nat) (exponent : Int) (n : Nat) :
    ofDecimal negative (coeff * 10 ^ n) exponent = ofDecimal negative coeff (exponent + n) := by
  induction n generalizing exponent with
  | zero => simp
  | succ n ih =>
    rw [Nat.pow_succ, ← Nat.mul_assoc, ofDecimal_mul_ten, ih]
    congr 1
    omega

/-- Quotients by powers of two are decimals. -/
theorem ofDecimal_mul_five_pow (negative : Bool) (m n : Nat) :
    ofDecimal negative (m * Nat.pow 5 n) (-n) = ofRatio negative m (Nat.pow 2 n) := by
  rw [ofDecimal_eq_ofRatio]
  refine ofRatio_congr negative (ten_pow_pos _) (two_pow_pos _) ?_
  have h₁ : (-(n : Int)).toNat = 0 := by omega
  have h₂ : (-(-(n : Int))).toNat = n := by omega
  have hten : Nat.pow 10 n = Nat.pow 5 n * Nat.pow 2 n := Nat.mul_pow 5 2 n
  rw [h₁, h₂, hten, show Nat.pow 10 0 = 1 from rfl]
  ring

theorem pack_eq_finite_iff {negative : Bool} {mant exp : Nat} {a : Magnitude} :
    pack negative mant exp = .finite negative a ↔ mant = a.mant ∧ exp = a.exp := by
  unfold pack
  constructor
  · intro h
    split at h
    · cases h
      exact ⟨rfl, rfl⟩
    · cases h
  · rintro ⟨rfl, rfl⟩
    exact pack_magnitude negative a

/-- The sign plays no part in rounding. -/
theorem exists_ofRatio_eq_pack (num den : Nat) :
    ∃ mant exp, ∀ negative, ofRatio negative num den = pack negative mant exp := by
  unfold ofRatio
  generalize Nat.pow 2 1074 = unit
  dsimp only
  split
  · exact ⟨_, _, fun _ => rfl⟩
  · exact ⟨_, _, fun _ => rfl⟩

theorem ofDecimal_eq_finite_iff {negative negative' : Bool} {coeff : Nat} {exponent : Int}
    {a : Magnitude} :
    ofDecimal negative coeff exponent = .finite negative a ↔
      ofDecimal negative' coeff exponent = .finite negative' a := by
  obtain ⟨mant, exp, h⟩ := exists_ofRatio_eq_pack (coeff * Nat.pow 10 exponent.toNat)
    (Nat.pow 10 (-exponent).toNat)
  rw [ofDecimal_eq_ofRatio, ofDecimal_eq_ofRatio, h, h, pack_eq_finite_iff, pack_eq_finite_iff]

end Double

/-! ### Shortest decimals -/

open Double

theorem Decimal.ofDecimal_trim (negative : Bool) (coeff : Nat) (exponent : Int) :
    ofDecimal negative (trim coeff exponent).coeff (trim coeff exponent).exponent =
      ofDecimal negative coeff exponent := by
  induction coeff, exponent using trim.induct with
  | case1 coeff exponent h ih =>
    rw [trim, dif_pos h, ih, ← ofDecimal_mul_ten, Nat.div_mul_cancel (Nat.dvd_of_mod_eq_zero h.2)]
  | case2 coeff exponent h => rw [trim, dif_neg h]

namespace Magnitude

theorem ofDecimal_of_readBy {a : Magnitude} {coeff : Nat} {exponent : Int}
    (h : a.readBy coeff exponent = true) :
    ofDecimal false coeff exponent = .finite false a := by
  simpa [readBy] using h

/-- Zero is read as zero. -/
theorem coeff_pos_of_ofDecimal {a : Magnitude} (ha : a ≠ .zero) {coeff : Nat} {exponent : Int}
    (h : ofDecimal false coeff exponent = .finite false a) : 0 < coeff := by
  refine Nat.pos_of_ne_zero fun hzero => ha ?_
  rw [hzero, ofDecimal, if_pos rfl] at h
  injection h with _ h
  exact h.symm

theorem readBy_of_nearestOn? {a : Magnitude} {coeff : Nat} {exponent : Int}
    (h : a.nearestOn? exponent = some coeff) : a.readBy coeff exponent = true := by
  unfold nearestOn? at h
  dsimp only at h
  split at h <;> try (cases h; assumption)
  · next hlow hhigh =>
    -- Both neighbours read back, and rounding picks one of them.
    obtain rfl := Option.some.inj h
    rcases roundHalfEven_cases (a.quotientBy exponent).1 (a.quotientBy exponent).2 with hq | hq
    · rw [hq]; exact hlow
    · rw [hq]; exact hhigh
  · cases h

/-- The exact value reads back. -/
theorem ofDecimal_units (a : Magnitude) :
    ofDecimal false (a.units * Nat.pow 5 1074) (-1074) = .finite false a := by
  have h := ofDecimal_mul_five_pow false a.units 1074
  rw [ofRatio_units] at h
  exact h

/-- The first decimal that reads back does so, whether it was found or is the exact value. -/
theorem ofDecimal_firstReadBack (a : Magnitude) :
    ofDecimal false a.firstReadBack.1 a.firstReadBack.2 = .finite false a := by
  rw [firstReadBack]
  generalize hfound : List.findSome? _ _ = found
  cases found with
  | some r =>
    obtain ⟨k, -, hk⟩ := List.exists_of_findSome?_eq_some hfound
    obtain ⟨coeff, hcoeff, rfl⟩ := Option.map_eq_some_iff.1 hk
    rw [Option.getD_some]
    exact ofDecimal_of_readBy (readBy_of_nearestOn? hcoeff)
  | none =>
    rw [Option.getD_none]
    exact ofDecimal_units a

/-- **Shortest decimals read back.** -/
theorem ofDecimal_shortest (negative : Bool) (a : Magnitude) :
    ofDecimal negative a.shortest.coeff a.shortest.exponent = .finite negative a := by
  have hfirst := a.ofDecimal_firstReadBack
  rw [← Decimal.ofDecimal_trim] at hfirst
  exact ofDecimal_eq_finite_iff.1 hfirst

end Magnitude

end StackScript
