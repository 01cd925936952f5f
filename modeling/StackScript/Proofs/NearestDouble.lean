import Mathlib.Algebra.Order.Field.Basic
import Mathlib.Algebra.Order.Field.Rat
import Mathlib.Algebra.Ring.Parity
import Mathlib.Tactic.FieldSimp
import Mathlib.Tactic.Linarith
import Mathlib.Tactic.Positivity
import Mathlib.Tactic.Ring
import StackScript.Proofs.Rounding

/-!
# Nearest doubles

What it means that a number is rounded to a double, said with exact numbers and without a word
about how: `Double.Rounds v x` holds if `x` is nearest to `v` among all finite doubles, with an even
mantissa where two are equally near, or if `v` is beyond all of them and `x` is infinite.

* `Double.rounds_iff`, `Double.rounds_decimal_iff` : a quotient is rounded by `Double.ofRatio` and a
  decimal by `Double.ofDecimal`, and in no other way;
* `Magnitude.Nearest.between` : what lies between two numbers with the same nearest double has that
  nearest double too.
-/

namespace StackScript

/-- The number that a magnitude stands for. -/
def Magnitude.value (a : Magnitude) : ℚ := a.units / 2 ^ 1074

/-- No double is nearer to the number, and if another one is as near, then the mantissa is even. -/
structure Magnitude.Nearest (v : ℚ) (a : Magnitude) : Prop where
  le : ∀ b : Magnitude, |a.value - v| ≤ |b.value - v|
  even : ∀ b : Magnitude, b ≠ a → |b.value - v| = |a.value - v| → Even a.mant

namespace Double

/-- Halfway between the greatest double and `2 ^ 1024`, which would be the next one. -/
def overflowBound : ℚ := 2 ^ 1024 - 2 ^ 970

/-- A number that is not negative is rounded to a double. -/
def Rounds (v : ℚ) : Double → Prop
  | .nan => False
  | .infinity negative => negative = false ∧ overflowBound ≤ v
  | .finite negative a => negative = false ∧ v < overflowBound ∧ a.Nearest v

end Double

/-! ### Nearest integers -/

section Integers

variable {m j : ℕ} {s : ℚ}

/-- A quotient lies between two integers. -/
theorem floor_quotient (num : ℕ) {den : ℕ} (hden : 0 < den) :
    ((num / den : ℕ) : ℚ) ≤ num / den ∧ (num : ℚ) / den < (num / den : ℕ) + 1 := by
  have hpos : (0 : ℚ) < den := by exact_mod_cast hden
  rw [le_div_iff₀ hpos, div_lt_iff₀ hpos]
  constructor
  · exact_mod_cast Nat.div_mul_le_self num den
  · exact_mod_cast Nat.lt_mul_of_div_lt (Nat.lt_succ_self _) hden

/-- A distance, seen on a scale. -/
theorem abs_mul_sub {scale : ℚ} (hscale : 0 < scale) (x t : ℚ) :
    |x * scale - t| = |x - t / scale| * scale := by
  rw [← abs_of_pos hscale, ← abs_mul, abs_of_pos hscale, sub_mul, div_mul_cancel₀ _ hscale.ne']

theorem two_pow_pos_rat (n : ℕ) : (0 : ℚ) < 2 ^ n := pow_pos two_pos n

theorem natAbs_roundHalfEven (num : ℕ) {den : ℕ} (hden : 0 < den) :
    2 * (roundHalfEven num den * den - num : ℤ).natAbs ≤ den ∧
      (2 * (roundHalfEven num den * den - num : ℤ).natAbs = den →
        Even (roundHalfEven num den)) := by
  have hsplit : (num : ℤ) = (num / den : ℕ) * den + (num % den : ℕ) := by
    rw [mul_comm]
    exact_mod_cast (Nat.div_add_mod num den).symm
  have hlt := Nat.mod_lt num hden
  unfold roundHalfEven
  generalize num / den = q at hsplit ⊢
  generalize num % den = r at hsplit hlt ⊢
  have hnext : ((q + 1 : ℕ) : ℤ) * den = q * den + den := by
    push_cast
    ring
  dsimp only
  rw [Nat.even_iff]
  split_ifs with hlow hhigh heven
  · omega
  · omega
  · omega
  · omega

theorem roundHalfEven_near (num : ℕ) {den : ℕ} (hden : 0 < den) :
    |(roundHalfEven num den : ℚ) - num / den| ≤ 1 / 2 ∧
      (|(roundHalfEven num den : ℚ) - num / den| = 1 / 2 → Even (roundHalfEven num den)) := by
  obtain ⟨hle, heven⟩ := natAbs_roundHalfEven num hden
  generalize roundHalfEven num den = m at hle heven ⊢
  have hpos : (0 : ℚ) < den := by exact_mod_cast hden
  have hdist : |(m : ℚ) - num / den| = (m * den - num : ℤ).natAbs / den := by
    have hdiff : (m : ℚ) - num / den = (m * den - num : ℤ) / den := by
      push_cast
      field_simp
    rw [hdiff, abs_div, abs_of_pos hpos, Nat.cast_natAbs, Int.cast_abs]
  rw [hdist, div_le_div_iff₀ hpos two_pos, div_eq_div_iff hpos.ne' two_ne_zero]
  generalize (m * den - num : ℤ).natAbs = k at hle heven
  constructor
  · have h : ((2 * k : ℕ) : ℚ) ≤ den := by exact_mod_cast hle
    push_cast at h
    linarith
  · intro h
    refine heven ?_
    have h : ((2 * k : ℕ) : ℚ) = den := by
      push_cast
      linarith
    exact_mod_cast h

theorem one_le_abs_sub (h : j ≠ m) : (1 : ℚ) ≤ |(j : ℚ) - m| := by
  have h : (1 : ℤ) ≤ |(j : ℤ) - m| := Int.one_le_abs (by omega)
  exact_mod_cast h

/-- Within half a step an integer is as near as any. -/
theorem abs_sub_le_of_half (h : |(m : ℚ) - s| ≤ 1 / 2) (j : ℕ) :
    |(m : ℚ) - s| ≤ |(j : ℚ) - s| := by
  by_cases hj : j = m
  · rw [hj]
  · have hstep := one_le_abs_sub hj
    have htriangle := abs_sub_le (j : ℚ) s m
    rw [abs_sub_comm s] at htriangle
    linarith

/-- Another integer that is as near is the next one, and the number is halfway. -/
theorem half_of_tie (h : |(m : ℚ) - s| ≤ 1 / 2) (hj : j ≠ m)
    (htie : |(j : ℚ) - s| = |(m : ℚ) - s|) :
    |(m : ℚ) - s| = 1 / 2 ∧ (j = m + 1 ∨ m = j + 1) := by
  have hstep := one_le_abs_sub hj
  have htriangle := abs_sub_le (j : ℚ) s m
  rw [abs_sub_comm s] at htriangle
  refine ⟨by linarith, ?_⟩
  have hle : |(j : ℚ) - m| ≤ 1 := by linarith
  have hle : |(j : ℤ) - m| ≤ 1 := by exact_mod_cast hle
  have := abs_le.1 hle
  omega

end Integers

/-! ### Mantissas and exponents -/

/-- Seen on a scale, a magnitude is on the grid, or below the numbers that belong to the scale. -/
theorem Magnitude.units_cases (b : Magnitude) (exp : ℕ) :
    (∃ k, b.units = b.mant * 2 ^ k * 2 ^ exp) ∨ exp ≠ 0 ∧ b.units < 2 ^ 52 * 2 ^ exp := by
  by_cases h : exp ≤ b.exp
  · refine .inl ⟨b.exp - exp, ?_⟩
    rw [units, Nat.pow_eq, mul_assoc, ← pow_add, Nat.sub_add_cancel h]
  · refine .inr ⟨by omega, ?_⟩
    calc b.units < 2 ^ 53 * 2 ^ b.exp :=
          (Nat.mul_lt_mul_right (Nat.two_pow_pos _)).2 b.canonical.1
      _ = 2 ^ 52 * 2 ^ (b.exp + 1) := by ring
      _ ≤ 2 ^ 52 * 2 ^ exp := Nat.mul_le_mul_left _ (Nat.pow_le_pow_right two_pos (by omega))

/-- A number `t` on the scale where it has fifty-three bits, as far as scales go down, and the
integer nearest to it there. -/
structure Scaled (t : ℚ) (mant exp : ℕ) : Prop where
  lower : exp = 0 ∨ 2 ^ 52 * 2 ^ exp ≤ t
  upper : t < 2 ^ 53 * 2 ^ exp
  near : |mant - t / 2 ^ exp| ≤ 1 / 2
  even : |mant - t / 2 ^ exp| = 1 / 2 → Even mant

namespace Scaled

variable {t : ℚ} {mant exp : ℕ}

/-- Below the scale, magnitudes are farther away. -/
theorem lt_of_below (h : Scaled t mant exp) {b : Magnitude} (hexp : exp ≠ 0)
    (hb : b.units < 2 ^ 52 * 2 ^ exp) : |mant * 2 ^ exp - t| < |(b.units : ℚ) - t| := by
  have hpos := two_pow_pos_rat exp
  have hlower := h.lower.resolve_left hexp
  have hb : (b.units : ℚ) < 2 ^ 52 * 2 ^ exp := by exact_mod_cast hb
  calc |mant * 2 ^ exp - t| = |mant - t / 2 ^ exp| * 2 ^ exp := abs_mul_sub hpos mant t
    _ ≤ |((2 ^ 52 : ℕ) : ℚ) - t / 2 ^ exp| * 2 ^ exp :=
        mul_le_mul_of_nonneg_right (abs_sub_le_of_half h.near _) hpos.le
    _ = |2 ^ 52 * 2 ^ exp - t| := by rw [abs_mul_sub hpos]; push_cast; rfl
    _ = t - 2 ^ 52 * 2 ^ exp := by rw [abs_sub_comm, abs_of_nonneg (by linarith)]
    _ < t - b.units := by linarith
    _ = |(b.units : ℚ) - t| := by rw [abs_sub_comm, abs_of_nonneg (by linarith)]

theorem le_units (h : Scaled t mant exp) (b : Magnitude) :
    |mant * 2 ^ exp - t| ≤ |(b.units : ℚ) - t| := by
  have hpos := two_pow_pos_rat exp
  obtain ⟨k, hk⟩ | ⟨hexp, hb⟩ := b.units_cases exp
  · have hk : (b.units : ℚ) = (b.mant * 2 ^ k : ℕ) * 2 ^ exp := by exact_mod_cast hk
    rw [hk, abs_mul_sub hpos, abs_mul_sub hpos]
    exact mul_le_mul_of_nonneg_right (abs_sub_le_of_half h.near _) hpos.le
  · exact (h.lt_of_below hexp hb).le

/-- Of two numbers that are equally near, the mantissa taken is even and the other one is odd. -/
theorem even_of_tie (h : Scaled t mant exp) {b : Magnitude} (hne : b.units ≠ mant * 2 ^ exp)
    (htie : |(b.units : ℚ) - t| = |mant * 2 ^ exp - t|) : Even mant ∧ ¬Even b.mant := by
  have hpos := two_pow_pos_rat exp
  obtain ⟨k, hk⟩ | ⟨hexp, hb⟩ := b.units_cases exp
  · have hj : b.mant * 2 ^ k ≠ mant := by
      rintro rfl
      exact hne hk
    have hk : (b.units : ℚ) = (b.mant * 2 ^ k : ℕ) * 2 ^ exp := by exact_mod_cast hk
    rw [hk, abs_mul_sub hpos, abs_mul_sub hpos] at htie
    obtain ⟨hhalf, hnext⟩ := half_of_tie h.near hj (mul_right_cancel₀ hpos.ne' htie)
    have heven := h.even hhalf
    refine ⟨heven, fun hmant => ?_⟩
    have hgrid : Even (b.mant * 2 ^ k) := hmant.mul_right _
    rw [Nat.even_iff] at heven hgrid
    omega
  · exact absurd htie (h.lt_of_below hexp hb).ne'

theorem mant_le (h : Scaled t mant exp) : mant ≤ 2 ^ 53 := by
  have hupper : t / 2 ^ exp < 2 ^ 53 := (div_lt_iff₀ (by positivity)).2 h.upper
  have hnear := abs_le.1 h.near
  have hlt : (mant : ℚ) < (2 ^ 53 + 1 : ℕ) := by
    push_cast
    linarith
  have hlt : mant < 2 ^ 53 + 1 := by exact_mod_cast hlt
  omega

theorem le_mant (h : Scaled t mant exp) (hexp : exp ≠ 0) : 2 ^ 52 ≤ mant := by
  have hlower : 2 ^ 52 ≤ t / 2 ^ exp :=
    (le_div_iff₀ (by positivity)).2 (h.lower.resolve_left hexp)
  have hnear := abs_le.1 h.near
  have hlt : ((2 ^ 52 : ℕ) : ℚ) < (mant + 1 : ℕ) := by
    push_cast
    linarith
  have hlt : 2 ^ 52 < mant + 1 := by exact_mod_cast hlt
  omega

/-- The exponent is in range, also after a carry, exactly if the number is less than halfway from
the greatest magnitude in the range to the next power of two. -/
theorem fits_iff (h : Scaled t mant exp) (limit : ℕ) :
    exp < limit ∨ exp = limit ∧ mant ≠ 2 ^ 53 ↔ t < (2 ^ 53 - 1 / 2) * 2 ^ limit := by
  have hpos : (0 : ℚ) < 2 ^ limit := by positivity
  have hnear := abs_le.1 h.near
  constructor
  · rintro (hexp | ⟨rfl, hmant⟩)
    · have hle : (2 : ℚ) ^ (exp + 1) ≤ 2 ^ limit := pow_le_pow_right₀ one_le_two hexp
      have hupper := h.upper
      rw [pow_succ] at hle
      linarith
    · rw [← div_lt_iff₀ hpos]
      have hmant : mant + 1 ≤ 2 ^ 53 := by
        have := h.mant_le
        omega
      have hle : ((mant + 1 : ℕ) : ℚ) ≤ (2 ^ 53 : ℕ) := by exact_mod_cast hmant
      push_cast at hle
      refine lt_of_le_of_ne (by linarith) fun heq => ?_
      -- Halfway to the power of two the mantissa would have to be even, and it is the greatest one.
      have hmant : (mant : ℚ) + 1 = 2 ^ 53 := by linarith
      have hhalf : (mant : ℚ) - t / 2 ^ exp = -(1 / 2) := by linarith
      have heven := h.even (by rw [hhalf, abs_neg, abs_of_pos one_half_pos])
      have hmant : mant + 1 = 2 ^ 53 := by exact_mod_cast hmant
      rw [Nat.even_iff] at heven
      omega
  · intro hlt
    rcases Nat.lt_trichotomy exp limit with hexp | rfl | hexp
    · exact .inl hexp
    · refine .inr ⟨rfl, ?_⟩
      rintro rfl
      rw [← div_lt_iff₀ hpos] at hlt
      push_cast at hnear
      linarith
    · have hle : (2 : ℚ) ^ (limit + 1) ≤ 2 ^ exp := pow_le_pow_right₀ one_le_two hexp
      have hlower := h.lower.resolve_left (by omega)
      rw [pow_succ] at hle
      linarith

end Scaled

/-! ### Rounding a quotient -/

namespace Double

theorem scaled_roundHalfEven (num : ℕ) {den : ℕ} (hden : 0 < den) :
    Scaled (num / den) (roundHalfEven num (den * Nat.pow 2 ((num / den).log2 - 52)))
      ((num / den).log2 - 52) := by
  obtain ⟨hle, hlt⟩ := floor_quotient num hden
  have hround := roundHalfEven_near num (Nat.mul_pos hden (two_pow_pos ((num / den).log2 - 52)))
  have hsplit : (num : ℚ) / (den * Nat.pow 2 ((num / den).log2 - 52) : ℕ) =
      num / den / 2 ^ ((num / den).log2 - 52) := by
    rw [Nat.pow_eq, div_div]
    push_cast
    rfl
  rw [hsplit] at hround
  refine ⟨?_, ?_, hround.1, hround.2⟩
  · by_cases hexp : (num / den).log2 ≤ 52
    · exact .inl (by omega)
    · have hne : num / den ≠ 0 := by
        intro hzero
        rw [hzero] at hexp
        exact hexp (by decide)
      have hlog : 2 ^ 52 * 2 ^ ((num / den).log2 - 52) ≤ num / den := by
        rw [← pow_add, Nat.add_sub_cancel' (by omega)]
        exact Nat.log2_self_le hne
      exact .inr (le_trans (by exact_mod_cast hlog) hle)
  · have hlog : num / den + 1 ≤ 2 ^ 53 * 2 ^ ((num / den).log2 - 52) := by
      rw [← pow_add]
      exact Nat.lt_log2_self.trans_le (Nat.pow_le_pow_right two_pos (by omega))
    exact lt_of_lt_of_le hlt (by exact_mod_cast hlog)

/-- Rounding a quotient finds its scale, and carries where the mantissa gets too long. -/
theorem exists_scaled (num : ℕ) {den : ℕ} (hden : 0 < den) :
    ∃ mant exp, Scaled (num / den * 2 ^ 1074) mant exp ∧ ∀ negative, ofRatio negative num den =
      if mant = 2 ^ 53 then pack negative (2 ^ 52) (exp + 1) else pack negative mant exp := by
  have hscaled (n : ℕ) : (num : ℚ) / den * 2 ^ n = (num * Nat.pow 2 n : ℕ) / den := by
    rw [div_mul_eq_mul_div, Nat.pow_eq]
    push_cast
    rfl
  rw [hscaled]
  unfold ofRatio
  generalize Nat.pow 2 1074 = unit
  exact ⟨_, _, scaled_roundHalfEven (num * unit) hden, fun negative => rfl⟩

end Double

namespace Magnitude

theorem abs_value_sub (a : Magnitude) (v : ℚ) :
    |a.value - v| = |(a.units : ℚ) - v * 2 ^ 1074| / 2 ^ 1074 := by
  have hpos := two_pow_pos_rat 1074
  unfold value
  generalize (2 : ℚ) ^ 1074 = scale at hpos ⊢
  rw [← abs_of_pos hpos, ← abs_div, abs_of_pos hpos, sub_div, mul_div_cancel_right₀ _ hpos.ne']

theorem abs_value_sub_le_iff {a b : Magnitude} {v : ℚ} : |a.value - v| ≤ |b.value - v| ↔
    |(a.units : ℚ) - v * 2 ^ 1074| ≤ |(b.units : ℚ) - v * 2 ^ 1074| := by
  rw [abs_value_sub, abs_value_sub, div_le_div_iff_of_pos_right (two_pow_pos_rat 1074)]

theorem abs_value_sub_eq_iff {a b : Magnitude} {v : ℚ} : |a.value - v| = |b.value - v| ↔
    |(a.units : ℚ) - v * 2 ^ 1074| = |(b.units : ℚ) - v * 2 ^ 1074| := by
  rw [abs_value_sub, abs_value_sub, div_left_inj' (two_pow_pos_rat 1074).ne']

theorem eq_of_units_eq {a b : Magnitude} (h : a.units = b.units) : a = b := by
  have hread := Double.ofRatio_units false a
  rw [h, Double.ofRatio_units] at hread
  injection hread with _ hread
  exact hread.symm

variable {v : ℚ} {mant exp : ℕ} {a : Magnitude}

/-- The magnitude of a scaled number is nearest to it. -/
theorem nearest_of_scaled (h : Scaled (v * 2 ^ 1074) mant exp) (ha : a.units = mant * 2 ^ exp)
    (heven : Even mant → Even a.mant) : a.Nearest v := by
  have hunits : (a.units : ℚ) = mant * 2 ^ exp := by exact_mod_cast ha
  constructor
  · intro b
    rw [abs_value_sub_le_iff, hunits]
    exact h.le_units b
  · intro b hb htie
    rw [abs_value_sub_eq_iff, hunits] at htie
    refine heven (h.even_of_tie (fun heq => hb ?_) htie).1
    exact eq_of_units_eq (heq.trans ha.symm)

/-- No other magnitude is nearest to it. -/
theorem eq_of_nearest (h : Scaled (v * 2 ^ 1074) mant exp) (ha : a.units = mant * 2 ^ exp)
    {b : Magnitude} (hb : b.Nearest v) : b = a := by
  by_contra hne
  have hunits : (a.units : ℚ) = mant * 2 ^ exp := by exact_mod_cast ha
  have hle := hb.le a
  rw [abs_value_sub_le_iff, hunits] at hle
  have htie := le_antisymm hle (h.le_units b)
  refine (h.even_of_tie (fun heq => hne ?_) htie).2 (hb.even a (Ne.symm hne) ?_)
  · exact eq_of_units_eq (heq.trans ha.symm)
  · rw [abs_value_sub_eq_iff, hunits, htie]

end Magnitude

namespace Double

theorem overflowBound_mul : overflowBound * 2 ^ 1074 = (2 ^ 53 - 1 / 2) * 2 ^ 2045 := by
  have hpow (m n : ℕ) : (2 : ℚ) ^ m * 2 ^ n = 2 ^ (m + n) := (pow_add 2 m n).symm
  have hhalf (n : ℕ) : (1 / 2 : ℚ) * 2 ^ (n + 1) = 2 ^ n := by
    rw [pow_succ]
    ring
  rw [overflowBound, sub_mul, sub_mul, hpow, hpow, hpow, hhalf 2044]

theorem pack_eq_infinity (negative : Bool) (mant : ℕ) {exp : ℕ} (h : 2045 < exp) :
    pack negative mant exp = .infinity negative := by
  unfold pack
  rw [dif_neg]
  omega

/-- What a scaled number is packed into, if it fits. -/
theorem exists_magnitude {t : ℚ} {mant exp : ℕ} (h : Scaled t mant exp)
    (hfits : exp < 2045 ∨ exp = 2045 ∧ mant ≠ 2 ^ 53) :
    ∃ a : Magnitude, a.units = mant * 2 ^ exp ∧ (Even mant → Even a.mant) ∧ ∀ negative,
      (if mant = 2 ^ 53 then pack negative (2 ^ 52) (exp + 1) else pack negative mant exp) =
        .finite negative a := by
  by_cases hcarry : mant = 2 ^ 53
  · refine ⟨⟨2 ^ 52, exp + 1, by decide, by omega, .inr le_rfl⟩, ?_, fun _ => ?_,
      fun negative => ?_⟩
    · show 2 ^ 52 * 2 ^ (exp + 1) = mant * 2 ^ exp
      rw [hcarry]
      ring
    · exact ⟨2 ^ 51, by norm_num⟩
    · rw [if_pos hcarry]
      exact pack_magnitude negative ⟨2 ^ 52, exp + 1, _⟩
  · have hmant := h.mant_le
    have hnormal : exp = 0 ∨ 2 ^ 52 ≤ mant := or_iff_not_imp_left.2 h.le_mant
    refine ⟨⟨mant, exp, Nat.lt_of_le_of_ne hmant hcarry, by omega, hnormal⟩, rfl, id,
      fun negative => ?_⟩
    rw [if_neg hcarry]
    exact pack_magnitude negative ⟨mant, exp, _⟩

/-- Rounding a quotient gives the nearest magnitude, or infinity where there is none. -/
theorem ofRatio_cases (num : ℕ) {den : ℕ} (hden : 0 < den) :
    ((num / den : ℚ) < overflowBound ∧ ∃ a : Magnitude, a.Nearest (num / den) ∧
      (∀ b : Magnitude, b.Nearest (num / den) → b = a) ∧
      ∀ negative, ofRatio negative num den = .finite negative a) ∨
    (overflowBound ≤ (num / den : ℚ) ∧
      ∀ negative, ofRatio negative num den = .infinity negative) := by
  obtain ⟨mant, exp, hscaled, hread⟩ := exists_scaled num hden
  have hfits := hscaled.fits_iff 2045
  rw [← overflowBound_mul, mul_lt_mul_iff_left₀ (two_pow_pos_rat 1074)] at hfits
  by_cases h : exp < 2045 ∨ exp = 2045 ∧ mant ≠ 2 ^ 53
  · obtain ⟨a, ha, heven, hpack⟩ := exists_magnitude hscaled h
    exact .inl ⟨hfits.1 h, a, Magnitude.nearest_of_scaled hscaled ha heven,
      fun b => Magnitude.eq_of_nearest hscaled ha,
      fun negative => (hread negative).trans (hpack negative)⟩
  · refine .inr ⟨not_lt.1 (mt hfits.2 h), fun negative => ?_⟩
    rw [hread]
    split_ifs with hcarry
    · exact pack_eq_infinity negative _ (by omega)
    · exact pack_eq_infinity negative _ (by omega)

/-- **Quotients are rounded** by `ofRatio`, and in no other way. -/
theorem rounds_iff {num den : ℕ} (hden : 0 < den) {x : Double} :
    x.Rounds (num / den) ↔ ofRatio false num den = x := by
  obtain ⟨hlt, a, ha, hunique, hread⟩ | ⟨hle, hread⟩ := ofRatio_cases num hden
  · rw [hread]
    constructor
    · cases x with
      | nan => exact False.elim
      | infinity negative => exact fun h => absurd h.2 (not_le.2 hlt)
      | finite negative b =>
        rintro ⟨rfl, -, hb⟩
        rw [hunique b hb]
    · rintro rfl
      exact ⟨rfl, hlt, ha⟩
  · rw [hread]
    constructor
    · cases x with
      | nan => exact False.elim
      | infinity negative =>
        rintro ⟨rfl, -⟩
        rfl
      | finite negative b => exact fun h => absurd h.2.1 (not_lt.2 hle)
    · rintro rfl
      exact ⟨rfl, hle⟩

theorem decimal_eq_div (coeff : ℕ) (exponent : ℤ) : (coeff : ℚ) * 10 ^ exponent =
    (coeff * Nat.pow 10 exponent.toNat : ℕ) / (Nat.pow 10 (-exponent).toNat : ℕ) := by
  rcases lt_or_ge exponent 0 with h | h
  · have hexponent : exponent = -((-exponent).toNat : ℤ) := by omega
    have hzero : exponent.toNat = 0 := by omega
    generalize (-exponent).toNat = n at hexponent
    rw [hzero, hexponent, zpow_neg, zpow_natCast, ← div_eq_mul_inv]
    simp
  · have hexponent : exponent = exponent.toNat := by omega
    have hzero : (-exponent).toNat = 0 := by omega
    generalize exponent.toNat = n at hexponent
    rw [hzero, hexponent, zpow_natCast]
    simp

/-- **Decimals are rounded** by `ofDecimal`, and in no other way. -/
theorem rounds_decimal_iff {coeff : ℕ} {exponent : ℤ} {x : Double} :
    x.Rounds (coeff * 10 ^ exponent) ↔ ofDecimal false coeff exponent = x := by
  rw [decimal_eq_div, rounds_iff (ten_pow_pos _), ofDecimal_eq_ofRatio]

end Double

/-! ### Numbers with the same nearest double -/

section Between

variable {a b u v w : ℚ}

theorem abs_sub_le_iff_of_lt (h : a < b) : |a - v| ≤ |b - v| ↔ 2 * v ≤ a + b := by
  rw [← sq_le_sq]
  constructor
  · intro hle
    nlinarith
  · intro hle
    nlinarith

theorem abs_sub_le_iff_of_gt (h : b < a) : |a - v| ≤ |b - v| ↔ a + b ≤ 2 * v := by
  rw [← sq_le_sq]
  constructor
  · intro hle
    nlinarith
  · intro hle
    nlinarith

end Between

namespace Magnitude

theorem value_injective {a b : Magnitude} (h : a.value = b.value) : a = b := by
  unfold value at h
  rw [div_left_inj' (two_pow_pos_rat 1074).ne'] at h
  exact eq_of_units_eq (by exact_mod_cast h)

/-- Between two numbers with the same nearest magnitude, it is nearest as well. -/
theorem Nearest.between {a : Magnitude} {u v w : ℚ} (hu : a.Nearest u) (hw : a.Nearest w)
    (huv : u ≤ v) (hvw : v ≤ w) : a.Nearest v := by
  constructor
  · intro b
    rcases lt_trichotomy a.value b.value with h | h | h
    · have := (abs_sub_le_iff_of_lt h).1 (hw.le b)
      exact (abs_sub_le_iff_of_lt h).2 (by linarith)
    · rw [h]
    · have := (abs_sub_le_iff_of_gt h).1 (hu.le b)
      exact (abs_sub_le_iff_of_gt h).2 (by linarith)
  · intro b hb htie
    rcases lt_trichotomy a.value b.value with h | h | h
    · have hhalf := (abs_sub_le_iff_of_gt h).1 htie.le
      have := (abs_sub_le_iff_of_lt h).1 (hw.le b)
      obtain rfl : v = w := by linarith
      exact hw.even b hb htie
    · exact absurd (value_injective h.symm) hb
    · have hhalf := (abs_sub_le_iff_of_lt h).1 htie.le
      have := (abs_sub_le_iff_of_gt h).1 (hu.le b)
      obtain rfl : u = v := by linarith
      exact hu.even b hb htie

end Magnitude

end StackScript
