import Mathlib.Algebra.Order.Field.Power
import Mathlib.Algebra.Order.Group.Pointwise.Interval
import StackScript.Proofs.NearestDouble

/-!
# Shortest decimals

The digits in which JavaScript writes a number are the fewest that are rounded to it, and of those
the nearest ones (`JavaScript.ShortestDigits`).  The search for them looks at two neighbours of the
number on one decimal grid after the other.  This is enough:

* `Magnitude.exists_nearestOn?` : if some decimal of so many digits is rounded to the number, then a
  neighbour on the grid of that precision is, and it is not farther away;
* `Magnitude.exists_seventeen` : on the grid of seventeen digits there always is one;
* `Magnitude.shortestDigits_shortest` : hence the search finds the digits that JavaScript writes.
-/

namespace StackScript

namespace JavaScript

/-- The `k` digits of the integer `s`, with a point behind the first `n` of them, are rounded to a
magnitude. -/
structure Represents (a : Magnitude) (s k : ℕ) (n : ℤ) : Prop where
  pos : 1 ≤ k
  lower : 10 ^ (k - 1) ≤ s
  upper : s < 10 ^ k
  rounds : (Double.finite false a).Rounds (s * 10 ^ (n - k))

/-- No digits that are rounded to the magnitude are fewer, and none as many are nearer. -/
structure ShortestDigits (a : Magnitude) (s k : ℕ) (n : ℤ) : Prop extends Represents a s k n where
  minimal : ∀ s' k' n', Represents a s' k' n' → k ≤ k'
  closest : ∀ s' n', Represents a s' k n' →
    |s * 10 ^ (n - k) - a.value| ≤ |s' * 10 ^ (n' - k) - a.value|

end JavaScript

open JavaScript Double

theorem ten_zpow_pos (n : ℤ) : (0 : ℚ) < 10 ^ n := by positivity

theorem ten_zpow_le {m n : ℤ} (h : m ≤ n) : (10 : ℚ) ^ m ≤ 10 ^ n :=
  zpow_le_zpow_right₀ (by norm_num) h

/-- A power of ten on a finer grid. -/
theorem ten_pow_mul_zpow (m : ℕ) (n : ℤ) : ((10 ^ m : ℕ) : ℚ) * 10 ^ n = 10 ^ (m + n) := by
  rw [zpow_add₀ (by norm_num), zpow_natCast]
  push_cast
  rfl

theorem JavaScript.Represents.bounds {a : Magnitude} {s k : ℕ} {n : ℤ} (h : Represents a s k n) :
    10 ^ (n - 1) ≤ (s * 10 ^ (n - k) : ℚ) ∧ (s * 10 ^ (n - k) : ℚ) < 10 ^ n := by
  have hpos := ten_zpow_pos (n - k)
  have hk := h.pos
  have hlower : ((10 ^ (k - 1) : ℕ) : ℚ) ≤ s := by exact_mod_cast h.lower
  have hupper : (s : ℚ) < (10 ^ k : ℕ) := by exact_mod_cast h.upper
  have hlower := mul_le_mul_of_nonneg_right hlower hpos.le
  have hupper := mul_lt_mul_of_pos_right hupper hpos
  have hfirst : ((k - 1 : ℕ) : ℤ) + (n - k) = n - 1 := by omega
  rw [ten_pow_mul_zpow, hfirst] at hlower
  rw [ten_pow_mul_zpow, add_sub_cancel] at hupper
  exact ⟨hlower, hupper⟩

namespace Magnitude

variable {a : Magnitude}

theorem cast_two_pow (n : ℕ) : ((Nat.pow 2 n : ℕ) : ℚ) = 2 ^ n := by
  rw [Nat.pow_eq]
  push_cast
  rfl

theorem value_eq_div (a : Magnitude) : a.value = a.units / (Nat.pow 2 1074 : ℕ) := by
  rw [cast_two_pow, value]

/-! ### What is rounded to a magnitude -/

theorem rounds_value (a : Magnitude) : (finite false a).Rounds a.value := by
  rw [value_eq_div, rounds_iff (two_pow_pos 1074)]
  exact ofRatio_units false a

theorem rounds_between {u v w : ℚ} (hu : (finite false a).Rounds u) (hw : (finite false a).Rounds w)
    (huv : u ≤ v) (hvw : v ≤ w) : (finite false a).Rounds v :=
  ⟨rfl, hvw.trans_lt hw.2.1, hu.2.2.between hw.2.2 huv hvw⟩

theorem readBy_iff {coeff : ℕ} {exponent : ℤ} :
    a.readBy coeff exponent = true ↔ (finite false a).Rounds (coeff * 10 ^ exponent) := by
  rw [rounds_decimal_iff, readBy, beq_iff_eq]

/-! ### Neighbours on a decimal grid -/

theorem quotientBy_eq (a : Magnitude) (exponent : ℤ) :
    0 < (a.quotientBy exponent).2 ∧
      ((a.quotientBy exponent).1 : ℚ) / (a.quotientBy exponent).2 = a.value / 10 ^ exponent := by
  have hunit := two_pow_pos 1074
  rw [value_eq_div]
  unfold quotientBy
  generalize Nat.pow 2 1074 = unit at hunit ⊢
  split_ifs with h
  · obtain ⟨n, rfl⟩ := Int.eq_ofNat_of_zero_le h
    refine ⟨Nat.mul_pos hunit (ten_pow_pos _), ?_⟩
    rw [div_div, zpow_natCast, Int.toNat_natCast, Nat.pow_eq]
    push_cast
    rfl
  · obtain ⟨n, rfl⟩ : ∃ n : ℕ, exponent = -n := ⟨(-exponent).toNat, by omega⟩
    refine ⟨hunit, ?_⟩
    rw [zpow_neg, zpow_natCast, div_inv_eq_mul, div_mul_eq_mul_div, neg_neg, Int.toNat_natCast,
      Nat.pow_eq]
    push_cast
    rfl

/-- The neighbours of a magnitude on a grid. -/
theorem neighbours (a : Magnitude) (exponent : ℤ) {low : ℕ}
    (hlow : low = (a.quotientBy exponent).1 / (a.quotientBy exponent).2) :
    low * 10 ^ exponent ≤ a.value ∧ a.value < (low + 1 : ℕ) * 10 ^ exponent := by
  obtain ⟨hden, heq⟩ := a.quotientBy_eq exponent
  have hfloor := floor_quotient (a.quotientBy exponent).1 hden
  have hpos := ten_zpow_pos exponent
  rw [← hlow, heq, le_div_iff₀ hpos, div_lt_iff₀ hpos] at hfloor
  push_cast
  exact hfloor

/-- If any number of a grid is rounded to the magnitude, then a neighbour is, and it is nearest. -/
theorem exists_nearestOn?_of_grid {coeff : ℕ} {exponent : ℤ}
    (h : (finite false a).Rounds (coeff * 10 ^ exponent)) :
    ∃ r, a.nearestOn? exponent = some r ∧
      |r * 10 ^ exponent - a.value| ≤ |coeff * 10 ^ exponent - a.value| := by
  obtain ⟨hden, heq⟩ := a.quotientBy_eq exponent
  have hpos := ten_zpow_pos exponent
  have hmono {m n : ℕ} (hmn : m ≤ n) : (m : ℚ) * 10 ^ exponent ≤ n * 10 ^ exponent :=
    mul_le_mul_of_nonneg_right (by exact_mod_cast hmn) hpos.le
  generalize hlow : (a.quotientBy exponent).1 / (a.quotientBy exponent).2 = low
  obtain ⟨hle, hlt⟩ := a.neighbours exponent hlow.symm
  have hreads : coeff ≤ low → a.readBy low exponent = true := fun hc =>
    readBy_iff.2 (rounds_between h a.rounds_value (hmono hc) hle)
  have hreads' : low + 1 ≤ coeff → a.readBy (low + 1) exponent = true := fun hc =>
    readBy_iff.2 (rounds_between a.rounds_value h hlt.le (hmono hc))
  unfold nearestOn?
  dsimp only
  rw [hlow]
  split
  · next hboth hboth' =>
    refine ⟨_, rfl, ?_⟩
    rw [abs_mul_sub hpos, abs_mul_sub hpos, ← heq]
    exact mul_le_mul_of_nonneg_right (abs_sub_le_of_half (roundHalfEven_near _ hden).1 _) hpos.le
  · next hfirst hsecond =>
    have hc : coeff ≤ low := by
      by_contra hc
      exact absurd (hreads' (by omega)) (Bool.eq_false_iff.1 hsecond)
    exact ⟨low, rfl, Set.abs_sub_left_of_mem_uIcc (Set.mem_uIcc_of_ge (hmono hc) hle)⟩
  · next hfirst hsecond =>
    have hc : low + 1 ≤ coeff := by
      by_contra hc
      exact absurd (hreads (by omega)) (Bool.eq_false_iff.1 hfirst)
    exact ⟨low + 1, rfl, Set.abs_sub_left_of_mem_uIcc (Set.mem_uIcc_of_le hlt.le (hmono hc))⟩
  · next hfirst hsecond =>
    rcases Nat.lt_or_ge low coeff with hc | hc
    · exact absurd (hreads' hc) (Bool.eq_false_iff.1 hsecond)
    · exact absurd (hreads hc) (Bool.eq_false_iff.1 hfirst)

/-! ### The leading digit -/

theorem lt_pow_digitCount (n : ℕ) : n < 10 ^ Decimal.digitCount n :=
  (Nat.length_toDigits_le_iff (by decide) Nat.length_toDigits_pos).1 le_rfl

theorem pow_le_of_digitCount {n : ℕ} (hn : 0 < n) : 10 ^ (Decimal.digitCount n - 1) ≤ n := by
  by_contra hlt
  have hpos : 0 < Decimal.digitCount n := Nat.length_toDigits_pos
  by_cases hone : Decimal.digitCount n = 1
  · rw [hone] at hlt
    omega
  · have hle : Decimal.digitCount n ≤ Decimal.digitCount n - 1 :=
      (Nat.length_toDigits_le_iff (by decide) (by omega)).2 (not_le.1 hlt)
    omega

theorem units_pos (ha : a ≠ .zero) : 0 < a.units := by
  refine Nat.pos_of_ne_zero fun h => ha (eq_of_units_eq ?_)
  rw [h]
  rfl

/-- The leading digit stands right before the point position. -/
theorem pointPosition_spec (ha : a ≠ .zero) :
    10 ^ (a.pointPosition - 1) ≤ a.value ∧ a.value < 10 ^ a.pointPosition := by
  have hunit := two_pow_pos 1074
  have hlarge : Nat.pow 2 1074 ≤ Nat.pow 10 330 := by decide +kernel
  have hshift (m : ℕ) : (10 : ℚ) ^ (m - 330 : ℤ) = (10 ^ m : ℕ) / (Nat.pow 10 330 : ℕ) := by
    rw [zpow_sub₀ (by norm_num), zpow_natCast]
    push_cast
    rfl
  unfold pointPosition
  rw [value_eq_div]
  generalize Nat.pow 2 1074 = unit at hunit hlarge ⊢
  generalize Nat.pow 10 330 = shift at hlarge hshift ⊢
  have hpos : (0 : ℚ) < shift := by exact_mod_cast hunit.trans_le hlarge
  have hone : 0 < a.units * shift / unit := by
    refine Nat.div_pos ?_ hunit
    exact hlarge.trans (Nat.le_mul_of_pos_left _ (units_pos ha))
  have hfloor := floor_quotient (a.units * shift) hunit
  have hscale : ((a.units * shift : ℕ) : ℚ) / unit = a.units / unit * shift := by
    push_cast
    rw [div_mul_eq_mul_div]
  rw [hscale] at hfloor
  generalize a.units * shift / unit = w at hone hfloor ⊢
  have hcount : 0 < Decimal.digitCount w := Nat.length_toDigits_pos
  have hlower : ((10 ^ (Decimal.digitCount w - 1) : ℕ) : ℚ) ≤ w := by
    exact_mod_cast pow_le_of_digitCount hone
  have hupper : (w : ℚ) + 1 ≤ (10 ^ Decimal.digitCount w : ℕ) := by
    exact_mod_cast lt_pow_digitCount w
  have hbefore : (Decimal.digitCount w : ℤ) - 330 - 1 = (Decimal.digitCount w - 1 : ℕ) - 330 := by
    omega
  rw [hbefore, hshift, hshift, div_le_iff₀ hpos, lt_div_iff₀ hpos]
  exact ⟨hlower.trans hfloor.1, hfloor.2.trans_le hupper⟩

/-- **Neighbours are enough.**  If any decimal of `k` digits is rounded to the magnitude, then a
neighbour on the grid of `k` digits is, and it is not farther away. -/
theorem exists_nearestOn? (ha : a ≠ .zero) {s k : ℕ} {n : ℤ} (h : Represents a s k n) :
    ∃ r, a.nearestOn? (a.pointPosition - k) = some r ∧
      |r * 10 ^ (a.pointPosition - k) - a.value| ≤ |s * 10 ^ (n - k) - a.value| := by
  obtain ⟨hlower, hupper⟩ := h.bounds
  obtain ⟨hle, hlt⟩ := pointPosition_spec ha
  generalize a.pointPosition = p at hle hlt ⊢
  have hk := h.pos
  rcases lt_trichotomy n p with hn | rfl | hn
  · -- Below the leading digit of the number, the power of ten right there is nearer.
    have hpower : ((10 ^ (k - 1) : ℕ) : ℚ) * 10 ^ (p - k) = 10 ^ (p - 1) := by
      rw [ten_pow_mul_zpow]
      congr 1
      omega
    have hstep : (s : ℚ) * 10 ^ (n - k) ≤ 10 ^ (p - 1) :=
      hupper.le.trans (ten_zpow_le (by omega))
    have hrounds := rounds_between h.rounds a.rounds_value hstep hle
    rw [← hpower] at hrounds hstep hle
    obtain ⟨r, hr, hnear⟩ := exists_nearestOn?_of_grid hrounds
    exact ⟨r, hr, hnear.trans (Set.abs_sub_left_of_mem_uIcc (Set.mem_uIcc_of_ge hstep hle))⟩
  · exact exists_nearestOn?_of_grid h.rounds
  · -- Above it, so is the next power of ten.
    have hpower : ((10 ^ k : ℕ) : ℚ) * 10 ^ (p - k) = 10 ^ p := by
      rw [ten_pow_mul_zpow]
      congr 1
      omega
    have hstep : (10 : ℚ) ^ p ≤ s * 10 ^ (n - k) := (ten_zpow_le (by omega)).trans hlower
    have hrounds := rounds_between a.rounds_value h.rounds hlt.le hstep
    rw [← hpower] at hrounds hstep hlt
    obtain ⟨r, hr, hnear⟩ := exists_nearestOn?_of_grid hrounds
    exact ⟨r, hr, hnear.trans (Set.abs_sub_left_of_mem_uIcc (Set.mem_uIcc_of_le hlt.le hstep))⟩

/-! ### Seventeen digits -/

theorem units_eq (a : Magnitude) : a.units = a.mant * 2 ^ a.exp := rfl

/-- Below a scale, the greatest magnitude has all bits set. -/
theorem units_le_of_lt {b : Magnitude} {exp : ℕ} (h : b.units < 2 ^ 53 * 2 ^ exp) :
    b.units ≤ (2 ^ 53 - 1) * 2 ^ exp := by
  obtain ⟨k, hk⟩ | ⟨-, hbelow⟩ := b.units_cases exp
  · rw [hk] at h ⊢
    have hlt := (Nat.mul_lt_mul_right (Nat.two_pow_pos exp)).1 h
    exact Nat.mul_le_mul_right _ (by omega)
  · exact hbelow.le.trans (Nat.mul_le_mul_right _ (by decide))

/-- How far other magnitudes are away at least. -/
theorem units_le_mul_natAbs {b : Magnitude} (hb : b ≠ a) :
    a.units ≤ 2 ^ 53 * ((b.units : ℤ) - a.units).natAbs := by
  have hne : b.units ≠ a.units := fun h => hb (eq_of_units_eq h)
  have hmant : a.mant < 2 ^ 53 := a.canonical.1
  obtain ⟨k, hk⟩ | ⟨hexp, hbelow⟩ := b.units_cases a.exp
  · rw [hk, units_eq] at hne ⊢
    generalize b.mant * 2 ^ k = j at hne ⊢
    have hj : j ≠ a.mant := fun h => hne (by rw [h])
    have hdist : ((j * 2 ^ a.exp : ℕ) - (a.mant * 2 ^ a.exp : ℕ) : ℤ).natAbs =
        ((j : ℤ) - a.mant).natAbs * 2 ^ a.exp := by
      push_cast
      rw [← sub_mul, Int.natAbs_mul, Int.natAbs_pow]
      rfl
    rw [hdist, ← mul_assoc]
    exact Nat.mul_le_mul_right _ (by omega)
  · -- The other one is below a power of two, where magnitudes are twice as dense.
    have hnormal : 2 ^ 52 ≤ a.mant := a.canonical.2.2.resolve_left hexp
    obtain ⟨exp, hsucc⟩ := Nat.exists_eq_succ_of_ne_zero hexp
    have hunits : a.units = 2 * a.mant * 2 ^ exp := by
      rw [units_eq, hsucc, pow_succ]
      ring
    have hpow : 2 ^ 52 * 2 ^ (exp + 1) = 2 ^ 53 * 2 ^ exp := by ring
    have hle : b.units ≤ (2 ^ 53 - 1) * 2 ^ exp := units_le_of_lt (by rwa [hsucc, hpow] at hbelow)
    have hgap : (2 * a.mant - (2 ^ 53 - 1)) * 2 ^ exp ≤ ((b.units : ℤ) - a.units).natAbs := by
      rw [hunits, Nat.sub_mul]
      omega
    calc a.units = 2 * a.mant * 2 ^ exp := hunits
      _ ≤ 2 ^ 53 * (2 * a.mant - (2 ^ 53 - 1)) * 2 ^ exp := Nat.mul_le_mul_right _ (by omega)
      _ = 2 ^ 53 * ((2 * a.mant - (2 ^ 53 - 1)) * 2 ^ exp) := mul_assoc _ _ _
      _ ≤ 2 ^ 53 * ((b.units : ℤ) - a.units).natAbs := Nat.mul_le_mul_left _ hgap

theorem value_le_mul_abs_sub {b : Magnitude} (hb : b ≠ a) :
    a.value ≤ 2 ^ 53 * |b.value - a.value| := by
  have hpos := two_pow_pos_rat 1074
  have hunits : ((a.units : ℕ) : ℚ) ≤ (2 ^ 53 * ((b.units : ℤ) - a.units).natAbs : ℕ) := by
    exact_mod_cast units_le_mul_natAbs hb
  rw [abs_value_sub, ← mul_div_assoc]
  unfold value
  rw [div_mul_cancel₀ _ hpos.ne', div_le_div_iff_of_pos_right hpos]
  rw [Nat.cast_mul, Nat.cast_natAbs, Int.cast_abs] at hunits
  exact_mod_cast hunits

theorem value_mul (a : Magnitude) : a.value * 2 ^ 1074 = a.units :=
  div_mul_cancel₀ _ (two_pow_pos_rat 1074).ne'

theorem units_le (a : Magnitude) : (a.units : ℚ) ≤ (2 ^ 53 - 1) * 2 ^ 2045 := by
  have hmant : ((a.mant + 1 : ℕ) : ℚ) ≤ (2 ^ 53 : ℕ) := by exact_mod_cast a.canonical.1
  have hpow : (2 : ℚ) ^ a.exp ≤ 2 ^ 2045 := pow_le_pow_right₀ one_le_two a.canonical.2.1
  rw [units_eq, Nat.cast_mul, Nat.cast_pow]
  push_cast at hmant
  exact mul_le_mul (by linarith) hpow (two_pow_pos_rat _).le (by norm_num)

/-- A number nearer than half of that is rounded to the magnitude. -/
theorem rounds_of_close {v : ℚ} (h : 2 ^ 54 * |a.value - v| < a.value) :
    (finite false a).Rounds v := by
  have hcloser {b : Magnitude} (hb : b ≠ a) : |a.value - v| < |b.value - v| := by
    have hgap := value_le_mul_abs_sub hb
    have htriangle := abs_sub_le b.value v a.value
    rw [abs_sub_comm v] at htriangle
    linarith
  refine ⟨rfl, ?_, fun b => ?_, fun b hb htie => absurd htie (hcloser hb).ne'⟩
  · have hunits := a.units_le
    have hvalue := a.value_mul
    have hbound := overflowBound_mul
    have hpos := two_pow_pos_rat 1074
    have hpos' := two_pow_pos_rat 2045
    have habs := neg_abs_le (a.value - v)
    generalize (2 : ℚ) ^ 2045 = greatest at hunits hbound hpos'
    generalize (2 : ℚ) ^ 1074 = scale at hvalue hbound hpos
    have hv : 2 ^ 54 * v < (2 ^ 54 + 1) * a.value := by linarith
    have hscaled := mul_lt_mul_of_pos_right hv hpos
    refine lt_of_mul_lt_mul_right ?_ hpos.le
    rw [hbound]
    rw [mul_assoc, mul_assoc, hvalue] at hscaled
    linarith
  · by_cases hb : b = a
    · rw [hb]
    · exact (hcloser hb).le

/-- **Seventeen digits are enough.** -/
theorem exists_seventeen (ha : a ≠ .zero) : ∃ r, a.nearestOn? (a.pointPosition - 17) = some r := by
  obtain ⟨hle, -⟩ := pointPosition_spec ha
  obtain ⟨hden, heq⟩ := a.quotientBy_eq (a.pointPosition - 17)
  have hpos := ten_zpow_pos (a.pointPosition - 17)
  have hpower : ((10 ^ 16 : ℕ) : ℚ) * 10 ^ (a.pointPosition - 17) = 10 ^ (a.pointPosition - 1) := by
    rw [ten_pow_mul_zpow]
    congr 1
    omega
  have hhalf := (roundHalfEven_near (a.quotientBy (a.pointPosition - 17)).1 hden).1
  generalize roundHalfEven _ _ = c at hhalf
  rw [heq] at hhalf
  have hnear := mul_le_mul_of_nonneg_right hhalf hpos.le
  rw [← abs_mul_sub hpos, abs_sub_comm] at hnear
  rw [← hpower] at hle
  push_cast at hle
  -- Half a unit of the last digit is less than a number of seventeen digits over `2 ^ 54`.
  obtain ⟨r, hr, -⟩ := exists_nearestOn?_of_grid (rounds_of_close (by linarith) :
    (finite false a).Rounds (c * 10 ^ (a.pointPosition - 17)))
  exact ⟨r, hr⟩

/-! ### The search -/

/-- The search ends on the first grid where a neighbour is rounded to the magnitude. -/
theorem exists_firstReadBack (ha : a ≠ .zero) :
    ∃ r k : ℕ, 1 ≤ k ∧ a.nearestOn? (a.pointPosition - k) = some r ∧
      a.firstReadBack = (r, a.pointPosition - k) ∧
      ∀ j : ℕ, 1 ≤ j → a.nearestOn? (a.pointPosition - j) ≠ none → k ≤ j := by
  obtain ⟨last, hlast⟩ := exists_seventeen ha
  unfold firstReadBack
  dsimp only
  generalize hfound : (List.range' 1 17).findSome? _ = found
  cases found with
  | none =>
    have hnone := List.findSome?_eq_none_iff.1 hfound 17 (by decide)
    rw [Nat.cast_ofNat, hlast] at hnone
    cases hnone
  | some first =>
    obtain ⟨before, k, after, hsplit, hk, hbefore⟩ := List.findSome?_eq_some_iff.1 hfound
    obtain ⟨r, hr, rfl⟩ := Option.map_eq_some_iff.1 hk
    obtain ⟨m, -, rfl, hafter⟩ := List.range'_eq_append_iff.1 hsplit
    obtain ⟨rfl, -⟩ := List.range'_eq_cons_iff.1 hafter.symm
    refine ⟨r, 1 + m * 1, by omega, hr, Option.getD_some, fun j hj hsome => ?_⟩
    by_contra hlt
    have hnone := hbefore j (List.mem_range'_1.2 (by omega))
    exact hsome (Option.map_eq_none_iff.1 hnone)

/-- The search looks at the neighbours only. -/
theorem nearestOn?_le {exponent : ℤ} {r : ℕ} (hr : a.nearestOn? exponent = some r) :
    r ≤ (a.quotientBy exponent).1 / (a.quotientBy exponent).2 + 1 := by
  have hcases := roundHalfEven_cases (a.quotientBy exponent).1 (a.quotientBy exponent).2
  unfold nearestOn? at hr
  dsimp only at hr
  generalize (a.quotientBy exponent).1 / (a.quotientBy exponent).2 = low at hcases hr ⊢
  split at hr <;> simp only [Option.some.injEq, reduceCtorEq] at hr <;> omega

/-- The neighbours on the grid of `k` digits have at most `k` digits, a carry apart. -/
theorem le_pow_of_nearestOn? (ha : a ≠ .zero) {r k : ℕ}
    (hr : a.nearestOn? (a.pointPosition - k) = some r) : r ≤ 10 ^ k := by
  obtain ⟨-, hlt⟩ := pointPosition_spec ha
  have hpower : ((10 ^ k : ℕ) : ℚ) * 10 ^ (a.pointPosition - k) = 10 ^ a.pointPosition := by
    rw [ten_pow_mul_zpow, add_sub_cancel]
  have hle := nearestOn?_le hr
  generalize hlow : (a.quotientBy (a.pointPosition - k)).1 /
    (a.quotientBy (a.pointPosition - k)).2 = low at hle
  obtain ⟨hbelow, -⟩ := a.neighbours (a.pointPosition - k) hlow.symm
  rw [← hpower] at hlt
  have hlow : low < 10 ^ k := by
    exact_mod_cast lt_of_mul_lt_mul_right (hbelow.trans_lt hlt) (ten_zpow_pos _).le
  exact hle.trans hlow

end Magnitude

namespace Decimal

/-- Dropping zeros at the end moves them into the exponent. -/
theorem exists_trim (coeff : ℕ) (exponent : ℤ) :
    ∃ t : ℕ, coeff = (trim coeff exponent).coeff * 10 ^ t ∧
      (trim coeff exponent).exponent = exponent + t := by
  induction coeff, exponent using trim.induct with
  | case1 coeff exponent h ih =>
    obtain ⟨t, hcoeff, hexponent⟩ := ih
    rw [trim, dif_pos h]
    refine ⟨t + 1, ?_, by omega⟩
    rw [pow_succ, ← mul_assoc, ← hcoeff, Nat.div_mul_cancel (Nat.dvd_of_mod_eq_zero h.2)]
  | case2 coeff exponent h =>
    rw [trim, dif_neg h]
    exact ⟨0, by simp, by simp⟩

theorem trim_mod_ten {coeff : ℕ} (hcoeff : 0 < coeff) (exponent : ℤ) :
    (trim coeff exponent).coeff % 10 ≠ 0 := by
  induction coeff, exponent using trim.induct with
  | case1 coeff exponent h ih =>
    rw [trim, dif_pos h]
    exact ih (by omega)
  | case2 coeff exponent h =>
    rw [trim, dif_neg h]
    exact fun hzero => h ⟨by omega, hzero⟩

/-- Without zeros at the end, there is no carry either. -/
theorem digitCount_trim_le {coeff k : ℕ} (hpos : 0 < coeff) (hk : 1 ≤ k) (hle : coeff ≤ 10 ^ k)
    (exponent : ℤ) : digitCount (trim coeff exponent).coeff ≤ k := by
  obtain ⟨t, ht, -⟩ := exists_trim coeff exponent
  have hmod := trim_mod_ten hpos exponent
  refine (Nat.length_toDigits_le_iff (by decide) hk).2 (lt_of_le_of_ne ?_ fun heq => ?_)
  · calc (trim coeff exponent).coeff ≤ (trim coeff exponent).coeff * 10 ^ t :=
          Nat.le_mul_of_pos_right _ (by positivity)
      _ = coeff := ht.symm
      _ ≤ 10 ^ k := hle
  · -- A carry gives a power of ten, which ends in a zero.
    obtain ⟨j, rfl⟩ := Nat.exists_eq_succ_of_ne_zero (Nat.one_le_iff_ne_zero.1 hk)
    rw [heq, pow_succ, Nat.mul_mod_left] at hmod
    exact hmod rfl

theorem power_sub_digitCount (d : Decimal) :
    d.power + 1 - (digitCount d.coeff : ℕ) = d.exponent := by
  unfold power
  omega

end Decimal

namespace Magnitude

variable {a : Magnitude}

/-- **The search finds the shortest digits**, and they do not end in a zero. -/
theorem shortestDigits_shortest (ha : a ≠ .zero) :
    ShortestDigits a a.shortest.coeff (Decimal.digitCount a.shortest.coeff)
      (a.shortest.power + 1) ∧ a.shortest.coeff % 10 ≠ 0 := by
  obtain ⟨r, k, hk, hr, hfirst, hmin⟩ := exists_firstReadBack ha
  have hle := le_pow_of_nearestOn? ha hr
  have hrounds := readBy_iff.1 (readBy_of_nearestOn? hr)
  have hpos := coeff_pos_of_ofDecimal ha (ofDecimal_of_readBy (readBy_of_nearestOn? hr))
  have hcount := Decimal.digitCount_trim_le hpos hk hle (a.pointPosition - k)
  have hmod := Decimal.trim_mod_ten hpos (a.pointPosition - k)
  have hshortest : a.shortest = Decimal.trim r (a.pointPosition - k) := by
    unfold shortest
    rw [hfirst]
  have hvalue : (a.shortest.coeff : ℚ) * 10 ^ a.shortest.exponent =
      r * 10 ^ (a.pointPosition - k) := by
    obtain ⟨t, ht, hexponent⟩ := Decimal.exists_trim r (a.pointPosition - k)
    rw [← hshortest] at ht hexponent
    rw [hexponent, add_comm, ← ten_pow_mul_zpow, ← mul_assoc, ← Nat.cast_mul, ← ht]
  rw [← hshortest] at hcount hmod
  have hexp := a.shortest.power_sub_digitCount
  have hsome {s' k' : ℕ} {n' : ℤ} (h : Represents a s' k' n') : k ≤ k' := by
    obtain ⟨r', hr', -⟩ := exists_nearestOn? ha h
    exact hmin k' h.pos (by simp [hr'])
  refine ⟨⟨⟨Nat.length_toDigits_pos, pow_le_of_digitCount (by omega), lt_pow_digitCount _, ?_⟩,
    fun s' k' n' h => hcount.trans (hsome h), fun s' n' h => ?_⟩, hmod⟩
  · rwa [hexp, hvalue]
  · obtain ⟨r', hr', hnear⟩ := exists_nearestOn? ha h
    have heq : Decimal.digitCount a.shortest.coeff = k := hcount.antisymm (hsome h)
    rw [heq, hr] at hr'
    cases hr'
    rw [hexp, hvalue]
    rwa [heq] at hnear ⊢

end Magnitude

end StackScript
