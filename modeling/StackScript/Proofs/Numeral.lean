import Mathlib.Tactic.Ring
import StackScript.Json.Reader
import StackScript.Proofs.Rounding

/-!
# Numerals

A `Numeral` is the text of a decimal number cut into its whole part, its fraction and its exponent.
Reading such a text back gives the parts (`Numeral.decimalParts?_text`), and each layout in which a
double is spelled is the text of one numeral (`Layout.spell_eq_text`) whose value is the coefficient
and the exponent that were laid out (`Layout.ofDecimal_numeral`).
-/

namespace StackScript

/-! ### Digits -/

/-- All characters are decimal digits. -/
def AllDigits (cs : List Char) : Prop := ∀ c ∈ cs, c.isDigit

theorem allDigits_toDigits (n : Nat) : AllDigits (Nat.toDigits 10 n) := fun _ hc =>
  Nat.isDigit_of_mem_toDigits (by decide) (by decide) hc

theorem AllDigits.append {cs ds : List Char} (hc : AllDigits cs) (hd : AllDigits ds) :
    AllDigits (cs ++ ds) :=
  List.forall_mem_append.2 ⟨hc, hd⟩

theorem allDigits_replicate (n : Nat) : AllDigits (List.replicate n '0') := by
  intro c hc
  rw [List.eq_of_mem_replicate hc]
  rfl

/-- The text does not go on with a digit. -/
def NoDigit (cs : List Char) : Prop := ∀ c ∈ cs.head?, c.isDigit = false

theorem takeWhile_isDigit_append {cs rest : List Char} (h : AllDigits cs) (hrest : NoDigit rest) :
    (cs ++ rest).takeWhile Char.isDigit = cs := by
  rw [List.takeWhile_append_of_pos h]
  cases rest with
  | nil => simp
  | cons c rest => simp [hrest c rfl]

theorem dropWhile_isDigit_append {cs rest : List Char} (h : AllDigits cs) (hrest : NoDigit rest) :
    (cs ++ rest).dropWhile Char.isDigit = rest := by
  rw [List.dropWhile_append_of_pos h]
  cases rest with
  | nil => rfl
  | cons c rest => simp [hrest c rfl]

namespace Text

/-- The value of a decimal digit. -/
def digitValue (c : Char) : Nat := c.toNat - '0'.toNat

theorem asciiDigit?_of_isDigit {c : Char} (h : c.isDigit) :
    asciiDigit? c = some (digitValue c) := by
  unfold asciiDigit? digitValue
  rw [if_pos]
  simpa [Char.isDigit, Char.le_def] using h

theorem radixDigit?_of_isDigit {c : Char} (h : c.isDigit) :
    radixDigit? 10 c = some (digitValue c) := by
  have hlt : digitValue c < 10 := by
    simp only [Char.isDigit, Bool.and_eq_true, decide_eq_true_eq, UInt32.le_iff_toNat_le] at h
    have h9 : c.toNat ≤ 57 := h.2
    have h0 : '0'.toNat = 48 := rfl
    unfold digitValue
    omega
  simp [radixDigit?, asciiDigit?_of_isDigit h, hlt]

theorem ofDigits_map (cs : List Char) :
    ofDigits 10 (cs.map digitValue) = Nat.ofDigitChars 10 cs 0 := by
  simp [ofDigits, Nat.ofDigitChars, List.foldl_map, digitValue]

theorem filterMap_asciiDigit? {cs : List Char} (h : AllDigits cs) :
    cs.filterMap asciiDigit? = cs.map digitValue := by
  induction cs with
  | nil => rfl
  | cons c cs ih =>
    obtain ⟨hc, hcs⟩ := List.forall_mem_cons.1 h
    rw [List.filterMap_cons, asciiDigit?_of_isDigit hc, List.map_cons, ih hcs]

end Text

namespace Literal

theorem digits?_of_allDigits {cs : List Char} (hne : cs ≠ []) (h : AllDigits cs) :
    digits? 10 cs = some (cs.map Text.digitValue) := by
  have hmap : cs.mapM (Text.radixDigit? 10) = some (cs.map Text.digitValue) := by
    clear hne
    induction cs with
    | nil => rfl
    | cons c cs ih =>
      obtain ⟨hc, hcs⟩ := List.forall_mem_cons.1 h
      simp [List.mapM_cons, Text.radixDigit?_of_isDigit hc, ih hcs]
  simp [digits?, hne, hmap]

section Parts

variable {fraction : Option (List Char)} {rest : List Char}

theorem noDigit_append (fraction : Option (List Char)) (hrest : NoDigit rest) :
    NoDigit ((fraction.map ('.' :: ·)).getD [] ++ rest) := by
  cases fraction with
  | none => exact hrest
  | some ds => simp [NoDigit]

theorem splitFraction_append (hfraction : AllDigits (fraction.getD [])) (hrest : NoDigit rest)
    (hpoint : rest.head? ≠ some '.') :
    splitFraction ((fraction.map ('.' :: ·)).getD [] ++ rest) = (fraction, rest) := by
  cases fraction with
  | none =>
    simp only [Option.map_none, Option.getD_none, List.nil_append]
    cases rest with
    | nil => rfl
    | cons c rest =>
      have hc : c ≠ '.' := by simpa using hpoint
      simp [splitFraction, hc]
  | some ds =>
    simp only [Option.getD_some] at hfraction
    simp only [Option.map_some, Option.getD_some, List.cons_append, splitFraction,
      takeWhile_isDigit_append hfraction hrest, dropWhile_isDigit_append hfraction hrest]

/-- The point may stand anywhere among the digits, and the digits are read as one number. -/
theorem decimalParts?_append {whole : List Char} {ds : List Nat} {p : Int} (hwhole : AllDigits whole)
    (hfraction : AllDigits (fraction.getD [])) (hrest : NoDigit rest)
    (hpoint : rest.head? ≠ some '.') (hds : digits? 10 (whole ++ fraction.getD []) = some ds)
    (hp : exponent? rest = some p) :
    decimalParts? (whole ++ ((fraction.map ('.' :: ·)).getD [] ++ rest)) =
      some (Text.ofDigits 10 ds, p - (fraction.getD []).length) := by
  have htail := noDigit_append fraction hrest
  unfold decimalParts?
  simp only [takeWhile_isDigit_append hwhole htail, dropWhile_isDigit_append hwhole htail,
    splitFraction_append hfraction hrest hpoint, hds, hp]
  rfl

end Parts

end Literal

/-! ### Numerals -/

/-- A decimal number as it is written: digits, perhaps a point and more digits, perhaps a power of
ten with at least so many digits. -/
structure Numeral where
  whole : List Char
  fraction : Option (List Char)
  exponent : Option Int
  width : Nat

namespace Numeral

/-- The digits behind the point with the point. -/
def fractionText (n : Numeral) : List Char := (n.fraction.map ('.' :: ·)).getD []

/-- The digits of a power of ten, with zeros in front up to a width. -/
def powerDigits (width : Nat) (p : Int) : List Char :=
  List.replicate (width - (Nat.toDigits 10 p.natAbs).length) '0' ++ Nat.toDigits 10 p.natAbs

/-- The power of ten, always with a sign. -/
def exponentText (n : Numeral) : List Char :=
  (n.exponent.map fun p =>
    'e' :: (if p < 0 then '-' else '+') :: powerDigits n.width p).getD []

/-- The text of a numeral. -/
def text (n : Numeral) : List Char := n.whole ++ (n.fractionText ++ n.exponentText)

/-- All digits as one number. -/
def coeff (n : Numeral) : Nat := Nat.ofDigitChars 10 (n.whole ++ n.fraction.getD []) 0

/-- The power of ten that belongs to all digits as one number. -/
def power (n : Numeral) : Int := n.exponent.getD 0 - (n.fraction.getD []).length

/-- There are digits before the point, without a needless zero, and behind it. -/
structure Proper (n : Numeral) : Prop where
  ne_nil : n.whole ≠ []
  whole : AllDigits n.whole
  noZero : n.whole.head? = some '0' → n.whole = ['0']
  fraction : ∀ ds ∈ n.fraction, ds ≠ [] ∧ AllDigits ds

variable {n : Numeral}

theorem noDigit_exponentText (n : Numeral) : NoDigit n.exponentText := by
  unfold exponentText
  cases n.exponent with
  | none => simp [NoDigit]
  | some p => simp [NoDigit]

theorem noDigit_tail (n : Numeral) : NoDigit (n.fractionText ++ n.exponentText) :=
  Literal.noDigit_append n.fraction n.noDigit_exponentText

theorem powerDigits_ne_nil (width : Nat) (p : Int) : powerDigits width p ≠ [] := by
  simp [powerDigits, Nat.toDigits_ne_nil]

theorem allDigits_powerDigits (width : Nat) (p : Int) : AllDigits (powerDigits width p) :=
  (allDigits_replicate _).append (allDigits_toDigits _)

theorem ofDigitChars_powerDigits (width : Nat) (p : Int) :
    Nat.ofDigitChars 10 (powerDigits width p) 0 = p.natAbs := by
  rw [powerDigits, Nat.ofDigitChars_append, Nat.ofDigitChars_replicate_zero, Nat.mul_zero,
    Nat.ofDigitChars_ten_toDigits]

/-- A power of ten is read whatever its width. -/
theorem signed?_powerDigits (width : Nat) (p : Int) :
    Literal.signed? ((if p < 0 then '-' else '+') :: powerDigits width p) = some p := by
  have hdigits := Literal.digits?_of_allDigits (powerDigits_ne_nil width p)
    (allDigits_powerDigits width p)
  have hvalue := ofDigitChars_powerDigits width p
  by_cases hp : p < 0
  · have habs : (p.natAbs : Int) = -p := by omega
    rw [if_pos hp]
    simp [Literal.signed?, Literal.splitSign, hdigits, Text.ofDigits_map, hvalue, habs]
  · have habs : (p.natAbs : Int) = p := by omega
    rw [if_neg hp]
    simp [Literal.signed?, Literal.splitSign, hdigits, Text.ofDigits_map, hvalue, habs]

theorem exponent?_exponentText (n : Numeral) :
    Literal.exponent? n.exponentText = some (n.exponent.getD 0) := by
  unfold exponentText
  cases n.exponent with
  | none => rfl
  | some p =>
    simp only [Option.map_some, Option.getD_some, Literal.exponent?, true_or, if_true,
      signed?_powerDigits]

theorem head?_exponentText (n : Numeral) : n.exponentText.head? ≠ some '.' := by
  unfold exponentText
  cases n.exponent with
  | none => simp
  | some p => simp

theorem Proper.allDigits_fraction (h : n.Proper) : AllDigits (n.fraction.getD []) := by
  cases hf : n.fraction with
  | none => simp [AllDigits]
  | some ds => exact (h.fraction ds hf).2

theorem splitFraction_tail (h : n.Proper) :
    Literal.splitFraction (n.fractionText ++ n.exponentText) = (n.fraction, n.exponentText) :=
  Literal.splitFraction_append h.allDigits_fraction n.noDigit_exponentText n.head?_exponentText

/-- **Reading a numeral** gives all its digits as one number, and the power of ten. -/
theorem decimalParts?_text (h : n.Proper) :
    Literal.decimalParts? n.text = some (n.coeff, n.power) := by
  have hdigits := Literal.digits?_of_allDigits (by simp [h.ne_nil])
    (h.whole.append h.allDigits_fraction)
  have hparts := Literal.decimalParts?_append h.whole h.allDigits_fraction n.noDigit_exponentText
    n.head?_exponentText hdigits n.exponent?_exponentText
  rw [Text.ofDigits_map] at hparts
  exact hparts

end Numeral

/-! ### The numerals of a decimal -/

theorem AllDigits.take {cs : List Char} (h : AllDigits cs) (n : Nat) : AllDigits (cs.take n) :=
  fun c hc => h c (List.mem_of_mem_take hc)

theorem AllDigits.drop {cs : List Char} (h : AllDigits cs) (n : Nat) : AllDigits (cs.drop n) :=
  fun c hc => h c (List.mem_of_mem_drop hc)

theorem digitChar_ne_zero : ∀ n < 10, 0 < n → n.digitChar ≠ '0' := by decide

theorem head?_append_of_ne_nil {cs : List Char} (h : cs ≠ []) (ds : List Char) :
    (cs ++ ds).head? = cs.head? := by
  cases cs with
  | nil => exact absurd rfl h
  | cons c cs => rfl

/-- A positive number does not start with a zero. -/
theorem head?_toDigits {n : Nat} (hn : 0 < n) : (Nat.toDigits 10 n).head? ≠ some '0' := by
  induction n using Nat.strongRecOn with
  | ind n ih =>
    by_cases h : n < 10
    · rw [Nat.toDigits_of_lt_base h]
      simpa using digitChar_ne_zero n h hn
    · rw [Nat.toDigits_of_base_le (by decide) (by omega),
        head?_append_of_ne_nil Nat.toDigits_ne_nil]
      exact ih (n / 10) (by omega) (by omega)

namespace Decimal

variable {d : Decimal}

theorem digits_ne_nil (d : Decimal) : d.digits ≠ [] := Nat.toDigits_ne_nil

theorem allDigits_digits (d : Decimal) : AllDigits d.digits := allDigits_toDigits d.coeff

theorem ofDigitChars_digits (d : Decimal) : Nat.ofDigitChars 10 d.digits 0 = d.coeff :=
  Nat.ofDigitChars_ten_toDigits

theorem head?_digits (hd : 0 < d.coeff) : d.digits.head? ≠ some '0' := head?_toDigits hd

/-- The digits with a point behind the first `k` of them. -/
def divided (d : Decimal) (k : Nat) (exponent : Option Int) (width : Nat) : Numeral :=
  ⟨d.digits.take k, if (d.digits.drop k).isEmpty then none else some (d.digits.drop k), exponent,
    width⟩

/-- The digits behind a point and `n` zeros. -/
def shifted (d : Decimal) (n : Nat) : Numeral :=
  ⟨['0'], some (List.replicate n '0' ++ d.digits), none, 1⟩

/-- The digits with `n` zeros before the point. -/
def padded (d : Decimal) (n : Nat) (fraction : Option (List Char)) : Numeral :=
  ⟨d.digits ++ List.replicate n '0', fraction, none, 1⟩

theorem proper_divided (hd : 0 < d.coeff) {k : Nat} (hk : 0 < k) (exponent : Option Int)
    (width : Nat) : (d.divided k exponent width).Proper where
  ne_nil := by simp [divided, d.digits_ne_nil, hk.ne']
  whole := d.allDigits_digits.take k
  noZero := by simp [divided, List.head?_take, hk.ne', head?_digits hd]
  fraction := by
    unfold divided
    dsimp only
    split
    · simp
    · next h =>
      rintro ds ⟨⟩
      exact ⟨by simpa using h, d.allDigits_digits.drop k⟩

theorem proper_shifted (d : Decimal) (n : Nat) : (d.shifted n).Proper where
  ne_nil := by simp [shifted]
  whole := by simp [shifted, AllDigits]
  noZero := by simp [shifted]
  fraction := by
    rintro ds ⟨⟩
    exact ⟨by simp [d.digits_ne_nil], (allDigits_replicate n).append d.allDigits_digits⟩

theorem proper_padded (hd : 0 < d.coeff) (n : Nat) {fraction : Option (List Char)}
    (hfraction : ∀ ds ∈ fraction, ds = ['0']) : (d.padded n fraction).Proper where
  ne_nil := by simp [padded, d.digits_ne_nil]
  whole := d.allDigits_digits.append (allDigits_replicate n)
  noZero := by
    unfold padded
    rw [head?_append_of_ne_nil d.digits_ne_nil]
    exact fun h => absurd h (head?_digits hd)
  fraction := by
    intro ds hds
    rw [hfraction ds hds]
    simp [AllDigits]

theorem coeff_divided (d : Decimal) (k : Nat) (exponent : Option Int) (width : Nat) :
    (d.divided k exponent width).coeff = d.coeff := by
  rw [← d.ofDigitChars_digits, Numeral.coeff]
  congr 1
  unfold divided
  dsimp only
  split
  · next h =>
    simp only [Option.getD_none, List.append_nil]
    exact List.take_of_length_le (by simpa using h)
  · simp

theorem power_divided (d : Decimal) (k : Nat) (exponent : Option Int) (width : Nat) :
    (d.divided k exponent width).power = exponent.getD 0 - (d.digits.length - k : Nat) := by
  rw [Numeral.power, ← List.length_drop]
  unfold divided
  dsimp only
  split
  · next h =>
    rw [List.isEmpty_iff.1 h]
    simp
  · simp

theorem coeff_shifted (d : Decimal) (n : Nat) : (d.shifted n).coeff = d.coeff := by
  have hzeros : Nat.ofDigitChars 10 (['0'] ++ List.replicate n '0') 0 = 0 := by
    rw [show ['0'] ++ List.replicate n '0' = List.replicate (n + 1) '0' from rfl,
      Nat.ofDigitChars_replicate_zero, Nat.mul_zero]
  simp only [shifted, Numeral.coeff, Option.getD_some]
  rw [← List.append_assoc, Nat.ofDigitChars_append, hzeros, d.ofDigitChars_digits]

theorem power_shifted (d : Decimal) (n : Nat) :
    (d.shifted n).power = -(n + d.digits.length : Nat) := by
  simp [shifted, Numeral.power]

theorem ofDigitChars_digits_append (d : Decimal) (n : Nat) :
    Nat.ofDigitChars 10 (d.digits ++ List.replicate n '0') 0 = d.coeff * 10 ^ n := by
  rw [Nat.ofDigitChars_append, d.ofDigitChars_digits, Nat.ofDigitChars_replicate_zero,
    Nat.mul_comm]

/-- Zeros before the point are a power of ten, with or without a zero behind the point. -/
theorem ofDecimal_padded (negative : Bool) (d : Decimal) (n : Nat) {fraction : Option (List Char)}
    (hfraction : ∀ ds ∈ fraction, ds = ['0']) :
    Double.ofDecimal negative (d.padded n fraction).coeff (d.padded n fraction).power =
      Double.ofDecimal negative d.coeff n := by
  cases fraction with
  | none =>
    have hcoeff : (d.padded n none).coeff = d.coeff * 10 ^ n := by
      rw [← d.ofDigitChars_digits_append n]
      simp [Numeral.coeff, padded]
    have hpower : (d.padded n none).power = 0 := rfl
    rw [hcoeff, hpower, Double.ofDecimal_mul_pow, Int.zero_add]
  | some ds =>
    obtain rfl := hfraction ds rfl
    have hcoeff : (d.padded n (some ['0'])).coeff = d.coeff * 10 ^ (n + 1) := by
      rw [← d.ofDigitChars_digits_append (n + 1), List.replicate_succ']
      simp [Numeral.coeff, padded]
    have hpower : (d.padded n (some ['0'])).power = -1 := rfl
    rw [hcoeff, hpower, Double.ofDecimal_mul_pow]
    congr 1
    omega

end Decimal

/-- The numeral of a positive decimal in a format. -/
def Layout.numeral (l : Layout) (d : Decimal) : Numeral :=
  let point := (d.power + 1).toNat
  if l.lowest ≤ d.power ∧ d.power < l.limit then
    if d.power + 1 ≤ 0 then d.shifted (-(d.power + 1)).toNat
    else if d.digits.length ≤ point then
      d.padded (point - d.digits.length) (if l.pointZero then some ['0'] else none)
    else d.divided point none 1
  else d.divided 1 (some d.power) l.width

namespace Layout

theorem spell_eq_text (l : Layout) (d : Decimal) : l.spell d = (l.numeral d).text := by
  unfold spell numeral Decimal.positional Decimal.scientific Decimal.shifted Decimal.padded
    Decimal.divided Numeral.text Numeral.fractionText Numeral.exponentText Numeral.powerDigits
  dsimp only
  split_ifs with hrange hpoint hshort hzero hempty hempty hsign hsign
  · simp
  · simp
  · simp
  · simp only [List.isEmpty_iff, List.drop_eq_nil_iff] at hempty
    omega
  · simp
  · simp [hsign]
  · simp [hsign]
  · simp [*]
  · simp [*]

theorem exponent_numeral (l : Layout) (d : Decimal) : (l.numeral d).exponent =
    if l.lowest ≤ d.power ∧ d.power < l.limit then none else some d.power := by
  unfold numeral
  dsimp only
  split_ifs <;> rfl

theorem proper_numeral (l : Layout) {d : Decimal} (hd : 0 < d.coeff) : (l.numeral d).Proper := by
  unfold numeral
  dsimp only
  split_ifs with hrange hpoint hshort
  · exact d.proper_shifted _
  · exact Decimal.proper_padded hd _ (by simp)
  · exact Decimal.proper_padded hd _ (by simp)
  · exact Decimal.proper_divided hd (by omega) none 1
  · exact Decimal.proper_divided hd (by decide) _ _

/-- The numeral of a decimal stands for the decimal. -/
theorem ofDecimal_numeral (l : Layout) (d : Decimal) (negative : Bool) :
    Double.ofDecimal negative (l.numeral d).coeff (l.numeral d).power =
      Double.ofDecimal negative d.coeff d.exponent := by
  have hpower : d.power = d.digits.length + d.exponent - 1 := rfl
  have hlength : 0 < d.digits.length := List.length_pos_iff.2 d.digits_ne_nil
  unfold numeral
  dsimp only
  split_ifs with hrange hpoint hshort
  · rw [Decimal.coeff_shifted, Decimal.power_shifted]
    congr 1
    omega
  · rw [Decimal.ofDecimal_padded negative d _ (by simp)]
    congr 1
    omega
  · rw [Decimal.ofDecimal_padded negative d _ (by simp)]
    congr 1
    omega
  · rw [Decimal.coeff_divided, Decimal.power_divided, Option.getD_none]
    congr 1
    omega
  · rw [Decimal.coeff_divided, Decimal.power_divided, Option.getD_some]
    congr 1
    omega

end Layout

/-! ### Readers of numerals -/

/-- Facts about all members of a list can be checked one by one. -/
theorem forall_mem_of_all {α : Type} {p : α → Prop} [DecidablePred p] {l : List α}
    (h : (l.all fun a => p a) = true) : ∀ a ∈ l, p a := by
  simpa using h

/-- The characters of numerals. -/
def numeralChars : List Char :=
  ['0', '1', '2', '3', '4', '5', '6', '7', '8', '9', '.', 'e', '+', '-']

theorem mem_digits_of_isDigit {c : Char} (h : c.isDigit) :
    c ∈ ['0', '1', '2', '3', '4', '5', '6', '7', '8', '9'] := by
  simp only [Char.isDigit, Bool.and_eq_true, decide_eq_true_eq, UInt32.le_iff_toNat_le] at h
  have h0 : 48 ≤ c.toNat := h.1
  have h9 : c.toNat ≤ 57 := h.2
  have hc : c = Char.ofNat c.toNat := (Char.ofNat_toNat c).symm
  rw [hc]
  generalize c.toNat = n at h0 h9
  have : ∀ n < 58, 48 ≤ n → Char.ofNat n ∈ ['0', '1', '2', '3', '4', '5', '6', '7', '8', '9'] := by
    decide
  exact this n (by omega) h0

theorem AllDigits.subset_numeralChars {cs : List Char} (h : AllDigits cs) : cs ⊆ numeralChars := by
  intro c hc
  have := mem_digits_of_isDigit (h c hc)
  unfold numeralChars
  simp only [List.mem_cons] at this ⊢
  tauto

/-- The sign of a number. -/
def signText (negative : Bool) : List Char := if negative then ['-'] else []

namespace Numeral

variable {n : Numeral}

theorem text_subset (h : n.Proper) : n.text ⊆ numeralChars := by
  have hwhole := h.whole.subset_numeralChars
  have hfraction : n.fractionText ⊆ numeralChars := by
    unfold fractionText
    cases hf : n.fraction with
    | none => simp
    | some ds => exact List.cons_subset.2 ⟨by decide, (h.fraction ds hf).2.subset_numeralChars⟩
  have hexponent : n.exponentText ⊆ numeralChars := by
    unfold exponentText
    cases n.exponent with
    | none => simp
    | some p =>
      have hdigits := (allDigits_powerDigits n.width p).subset_numeralChars
      refine List.cons_subset.2 ⟨by decide, List.cons_subset.2 ⟨?_, hdigits⟩⟩
      split <;> decide
  exact List.append_subset.2 ⟨hwhole, List.append_subset.2 ⟨hfraction, hexponent⟩⟩

theorem signText_subset (negative : Bool) : signText negative ⊆ numeralChars := by
  cases negative <;> decide

theorem exists_text_eq_cons (h : n.Proper) : ∃ c cs, n.text = c :: cs ∧ c.isDigit := by
  obtain ⟨c, cs, hc⟩ := List.exists_cons_of_ne_nil h.ne_nil
  exact ⟨c, cs ++ (n.fractionText ++ n.exponentText), by simp [text, hc], h.whole c (by simp [hc])⟩

end Numeral

theorem dropWhile_eq_self {p : Char → Bool} {cs : List Char} (h : ∀ c ∈ cs, p c = false) :
    cs.dropWhile p = cs := by
  cases cs with
  | nil => rfl
  | cons c cs => simp [h c (by simp)]

namespace Literal

/-- A text in ASCII without blanks is taken as it is. -/
theorem core_eq_self_of_forall {cs : List Char}
    (h : ∀ c ∈ cs, toAscii c = c ∧ isMargin c = false) : core cs = cs := by
  have hmap : cs.map toAscii = cs := by
    conv_rhs => rw [← List.map_id cs]
    exact List.map_congr_left fun c hc => (h c hc).1
  unfold core
  rw [hmap, dropWhile_eq_self fun c hc => (h c hc).2,
    dropWhile_eq_self fun c hc => (h c (List.mem_reverse.1 hc)).2, List.reverse_reverse]

/-- A text of numeral characters has no blanks around it. -/
theorem core_eq_self {cs : List Char} (h : cs ⊆ numeralChars) : core cs = cs := by
  have hplain : ∀ c ∈ numeralChars, toAscii c = c ∧ isMargin c = false :=
    forall_mem_of_all (by decide)
  exact core_eq_self_of_forall fun c hc => hplain c (h hc)

theorem splitSign_signText (negative : Bool) {c : Char} (hc : c.isDigit) (cs : List Char) :
    splitSign (signText negative ++ c :: cs) = (negative, c :: cs) := by
  cases negative with
  | true => rfl
  | false =>
    have hminus : c ≠ '-' := by rintro rfl; exact absurd hc (by decide)
    have hplus : c ≠ '+' := by rintro rfl; exact absurd hc (by decide)
    simp [signText, splitSign, hminus, hplus]

theorem toLower_of_isDigit {c : Char} (h : c.isDigit) : c.toLower ≠ 'i' ∧ c.toLower ≠ 'n' := by
  have hall : ∀ d ∈ ['0', '1', '2', '3', '4', '5', '6', '7', '8', '9'],
      Char.toLower d ≠ 'i' ∧ Char.toLower d ≠ 'n' := forall_mem_of_all (by decide)
  exact hall c (mem_digits_of_isDigit h)

/-- **Decimal numbers** are read as the double nearest to them. -/
theorem decimal?_text (negative : Bool) {n : Numeral} (h : n.Proper) :
    decimal? (signText negative ++ n.text) = some (.ofDecimal negative n.coeff n.power) := by
  obtain ⟨c, cs, htext, hc⟩ := n.exists_text_eq_cons h
  obtain ⟨hi, hn⟩ := toLower_of_isDigit hc
  have hcore := core_eq_self
    (List.append_subset.2 ⟨Numeral.signText_subset negative, n.text_subset h⟩)
  have hparts := n.decimalParts?_text h
  unfold decimal?
  rw [hcore]
  rw [htext] at hparts ⊢
  rw [splitSign_signText negative hc]
  simp [hi, hn, hparts]

end Literal

end StackScript
