import StackScript.Text.CodePoint

/-!
# Texts as code units

In sixteen bits a code point is one unit or, beyond the first plane, a pair of surrogates.  Units
are well-formed if a low surrogate stands behind every high one, and nowhere else.

Joining surrogate pairs keeps the units of a text (`CodePoint.encode_join?`) and is possible
exactly for well-formed ones (`CodePoint.isSome_join?_iff`).
-/

namespace StackScript

/-- A unit of a text in sixteen bits. -/
abbrev CodeUnit := Fin 0x10000

namespace CodeUnit

/-- First half of a surrogate pair. -/
def isHigh (u : CodeUnit) : Bool := 0xD800 ≤ u.val && u.val < 0xDC00

/-- Second half of a surrogate pair. -/
def isLow (u : CodeUnit) : Bool := 0xDC00 ≤ u.val && u.val < 0xE000

/-- The units can stand behind one that is a high surrogate, or is not: the marks of the high
surrogates, moved by one place, are the marks of the low ones. -/
def Continues (high : Bool) (us : List CodeUnit) : Prop :=
  high :: us.map isHigh = us.map isLow ++ [false]

/-- A low surrogate stands behind every high one, and nowhere else. -/
def WellFormed (us : List CodeUnit) : Prop := Continues false us

instance (us : List CodeUnit) : Decidable (WellFormed us) :=
  inferInstanceAs (Decidable (_ :: _ = _))

@[simp] theorem continues_nil {high : Bool} : Continues high [] ↔ high = false := by
  simp [Continues]

@[simp] theorem continues_cons {high : Bool} {u : CodeUnit} {us : List CodeUnit} :
    Continues high (u :: us) ↔ high = u.isLow ∧ Continues u.isHigh us := by
  simp [Continues]

end CodeUnit

namespace CodePoint

/-- The units of a code point: the code point itself, or the two halves of its pair. -/
def units (p : CodePoint) : List CodeUnit :=
  if h : p.val < 0x10000 then [⟨p.val, h⟩]
  else [⟨0xD800 + (p.val - 0x10000) / 0x400, by omega⟩,
    ⟨0xDC00 + (p.val - 0x10000) % 0x400, by omega⟩]

/-- The units of code points, one after the other. -/
def encode (ps : List CodePoint) : List CodeUnit := ps.flatMap units

@[simp] theorem encode_nil : encode [] = [] := rfl

theorem encode_cons (p : CodePoint) (ps : List CodePoint) :
    encode (p :: ps) = p.units ++ encode ps :=
  List.flatMap_cons

theorem encode_append (ps qs : List CodePoint) :
    encode (ps ++ qs) = encode ps ++ encode qs :=
  List.flatMap_append

/-- A code point goes with its neighbours as its units do. -/
@[simp] theorem continues_units_append {high : Bool} {p : CodePoint} {us : List CodeUnit} :
    CodeUnit.Continues high (p.units ++ us) ↔
      high = p.isLow ∧ CodeUnit.Continues p.isHigh us := by
  unfold units
  split
  · simp [CodeUnit.isHigh, CodeUnit.isLow, isHigh, isLow]
  · next hp =>
    have hhigh : p.isHigh = false := by simp [isHigh]; omega
    have hlow : p.isLow = false := by simp [isLow]; omega
    have hlead : 0xD800 + (p.val - 0x10000) / 0x400 < 0xDC00 := by omega
    have htrail : 0xDC00 + (p.val - 0x10000) % 0x400 < 0xE000 := by omega
    have hbase : ¬0xDC00 + (p.val - 0x10000) % 0x400 < 0xDC00 := by omega
    simp [CodeUnit.isHigh, CodeUnit.isLow, hhigh, hlow, hlead, htrail, Nat.not_le.2 hlead, hbase]

@[simp] theorem continues_units {high : Bool} {p : CodePoint} :
    CodeUnit.Continues high p.units ↔ high = p.isLow ∧ p.isHigh = false := by
  rw [← List.append_nil p.units, continues_units_append, CodeUnit.continues_nil]

theorem units_of_lt {p : CodePoint} (h : p.val < 0xD800) :
    p.isHigh = false ∧ p.isLow = false ∧ p.units.length = 1 := by
  have hlt : p.val < 0x10000 := by omega
  refine ⟨?_, ?_, by simp [units, hlt]⟩
  · simp [isHigh]; omega
  · simp [isLow]; omega

/-! ### Characters -/

theorem isSurrogate_eq (p : CodePoint) : p.isSurrogate = (p.isHigh || p.isLow) := by
  rw [Bool.eq_iff_iff]
  simp only [isSurrogate, isHigh, isLow, Bool.or_eq_true, Bool.and_eq_true, decide_eq_true_eq]
  omega

theorem isHigh_and_isLow (p : CodePoint) : (p.isHigh && p.isLow) = false := by
  rw [Bool.eq_false_iff]
  simp only [isHigh, isLow, ne_eq, Bool.and_eq_true, decide_eq_true_eq]
  omega

theorem isSurrogate_ofChar (c : Char) : (ofChar c).isSurrogate = false := by
  have hvalid : c.toNat.isValidChar := c.valid
  have hval : (ofChar c).val = c.toNat := rfl
  unfold Nat.isValidChar at hvalid
  rw [Bool.eq_false_iff]
  simp only [isSurrogate, ne_eq, Bool.and_eq_true, decide_eq_true_eq]
  omega

theorem toChar?_ofChar (c : Char) : (ofChar c).toChar? = some c := by
  rw [toChar?, isSurrogate_ofChar]
  simp [ofChar]

theorem val_ofChar_ofNat {n : Nat} (h : n.isValidChar) : (ofChar (Char.ofNat n)).val = n := by
  have heq : Char.ofNat n = Char.ofNatAux n h := dif_pos h
  rw [heq]
  rfl

theorem ofChar_of_toChar? {p : CodePoint} {c : Char} (h : p.toChar? = some c) : ofChar c = p := by
  unfold toChar? at h
  split at h
  · cases h
  · next hp =>
    obtain rfl := Option.some.inj h
    refine Fin.ext (val_ofChar_ofNat ?_)
    have hlt := p.isLt
    simp only [isSurrogate, Bool.and_eq_true, decide_eq_true_eq] at hp
    unfold Nat.isValidChar
    omega

/-- A pair of surrogates is the encoding of its character. -/
theorem units_pair {p q : CodePoint} (hp : p.isHigh = true) (hq : q.isLow = true) :
    (ofChar (pair p q)).units = p.units ++ q.units := by
  simp only [isHigh, isLow, Bool.and_eq_true, decide_eq_true_eq] at hp hq
  have hval : (ofChar (pair p q)).val =
      0x10000 + (p.val - 0xD800) * 0x400 + (q.val - 0xDC00) :=
    val_ofChar_ofNat (by unfold Nat.isValidChar; omega)
  have hlead : 0xD800 + ((ofChar (pair p q)).val - 0x10000) / 0x400 = p.val := by omega
  have htrail : 0xDC00 + ((ofChar (pair p q)).val - 0x10000) % 0x400 = q.val := by omega
  have hpair : ¬(ofChar (pair p q)).val < 0x10000 := by omega
  have hpval : p.val < 0x10000 := by omega
  have hqval : q.val < 0x10000 := by omega
  simp only [units, hpair, hpval, hqval, dite_true, dite_false, hlead, htrail, List.cons_append,
    List.nil_append]

/-! ### Joined pairs -/

/-- Joining keeps the units. -/
theorem encode_join? {ps : List CodePoint} {cs : List Char} (h : join? ps = some cs) :
    encode (cs.map ofChar) = encode ps := by
  fun_induction join? ps generalizing cs with
  | case1 =>
    obtain rfl := Option.some.inj h
    rfl
  | case2 p =>
    obtain ⟨c, hc, rfl⟩ := Option.map_eq_some_iff.1 h
    simp [encode_cons, ofChar_of_toChar? hc]
  | case3 p q rest hpair ih =>
    obtain ⟨ds, hds, rfl⟩ := Option.map_eq_some_iff.1 h
    obtain ⟨hp, hq⟩ := Bool.and_eq_true_iff.1 hpair
    simp [encode_cons, units_pair hp hq, ih hds]
  | case4 => cases h
  | case5 p q rest _ c hc ih =>
    obtain ⟨ds, hds, rfl⟩ := Option.map_eq_some_iff.1 h
    simp [encode_cons, ofChar_of_toChar? hc, ih hds]

/-- Pairs can be joined exactly in well-formed texts. -/
theorem isSome_join?_iff {ps : List CodePoint} :
    (join? ps).isSome = true ↔ CodeUnit.WellFormed (encode ps) := by
  unfold CodeUnit.WellFormed
  fun_induction join? ps with
  | case1 => simp
  | case2 p =>
    cases hhigh : p.isHigh <;> cases hlow : p.isLow <;>
      simp [encode_cons, toChar?, isSurrogate_eq, hhigh, hlow]
  | case3 p q rest hpair ih =>
    obtain ⟨hp, hq⟩ := Bool.and_eq_true_iff.1 hpair
    have hplow : p.isLow = false := by simpa [hp] using p.isHigh_and_isLow
    have hqhigh : q.isHigh = false := by simpa [hq] using q.isHigh_and_isLow
    simpa [encode_cons, hp, hq, hplow, hqhigh] using ih
  | case4 p q rest hpair hp =>
    have hsurrogate : (p.isHigh || p.isLow) = true := by
      rw [← isSurrogate_eq]
      simpa [toChar?] using hp
    cases hhigh : p.isHigh <;> simp_all [encode_cons]
  | case5 p q rest _ c hc ih =>
    have hscalar : (p.isHigh || p.isLow) = false := by
      rw [← isSurrogate_eq, ← ofChar_of_toChar? hc, isSurrogate_ofChar]
    obtain ⟨hhigh, hlow⟩ := Bool.or_eq_false_iff.1 hscalar
    simpa [encode_cons, hhigh, hlow] using ih

theorem join?_map_ofChar (cs : List Char) : join? (cs.map ofChar) = some cs := by
  induction cs with
  | nil => rfl
  | cons c cs ih =>
    cases cs with
    | nil => simp [join?, toChar?_ofChar]
    | cons d ds =>
      have hhigh : (ofChar c).isHigh = false := by
        have h := isSurrogate_ofChar c
        rw [isSurrogate_eq] at h
        exact (Bool.or_eq_false_iff.1 h).1
      simp only [List.map_cons] at ih ⊢
      simp [join?, hhigh, toChar?_ofChar, ih]

theorem toChars?_map_ofChar (cs : List Char) : toChars? (cs.map ofChar) = some cs := by
  rw [toChars?, List.mapM_map]
  induction cs with
  | nil => rfl
  | cons c cs ih => simp [toChar?_ofChar, ih]

end CodePoint

/-- The units of a text. -/
def Text.utf16 (s : String) : List CodeUnit := CodePoint.encode (s.toList.map CodePoint.ofChar)

end StackScript
