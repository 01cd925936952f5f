import StackScript.Constant
import StackScript.Proofs.EscapeForms
import StackScript.Proofs.Utf16

/-!
# How string literals are read

`Spells` says which code points the body of a literal spells, surrogates among them.  A body is read
as these code points (`Spells.unescape_eq`), and only an escape for a number beyond the code points
keeps a body from spelling any (`exists_spells`).

`string_joins_surrogates` is what follows for the literal: surrogates are joined exactly or refused,
however they are written.
-/

namespace StackScript.Literal

open Text (HexDigit OctalDigit ofDigits ofDigits_lt)

/-! ### Reading a body -/

/-- The code points that a literal's body spells.  A backslash at its end stands for itself. -/
inductive Spells : List Char → List CodePoint → Prop
  | nil : Spells [] []
  | plain {c : Char} {cs : List Char} {ps : List CodePoint} (hc : c ≠ '\\') (h : Spells cs ps) :
    Spells (c :: cs) (.ofChar c :: ps)
  | backslash : Spells ['\\'] [.ofChar '\\']
  | escape {e rest : List Char} {p : Option CodePoint} {ps : List CodePoint}
    (he : LongestForm e rest (p.map Fin.val)) (h : Spells rest ps) :
    Spells ('\\' :: (e ++ rest)) (p.toList ++ ps)

theorem unescape_length_append (e rest : List Char) :
    unescape e.length (e ++ rest) = unescape 0 rest := by
  induction e with
  | nil => rfl
  | cons c e ih => exact ih

theorem unescape_plain {c : Char} (hc : c ≠ '\\') (cs : List Char) :
    unescape 0 (c :: cs) = (unescape 0 cs).map (.ofChar c :: ·) := by
  rw [unescape, if_neg hc]

theorem unescape_escape {e rest : List Char} {p : Option CodePoint}
    (h : escape? (e ++ rest) = some ⟨.ok p, e.length⟩) :
    unescape 0 ('\\' :: (e ++ rest)) = (unescape 0 rest).map (p.toList ++ ·) := by
  rw [unescape, if_pos rfl, h]
  dsimp only
  rw [unescape_length_append]

/-- A body is read as the code points that it spells. -/
theorem Spells.unescape_eq {cs : List Char} {ps : List CodePoint} (h : Spells cs ps) :
    unescape 0 cs = .ok ps := by
  induction h with
  | nil => rfl
  | plain hc _ ih =>
    rw [unescape_plain hc, ih]
    rfl
  | backslash => rfl
  | @escape e rest p ps he _ ih =>
    have hnamed : named (p.map Fin.val) = .ok p := by
      cases p with
      | none => rfl
      | some p => exact codePoint_val p
    have hread := he.escape?_eq
    rw [hnamed] at hread
    rw [unescape_escape hread, ih]
    rfl

/-! ### Escapes that are too large -/

/-- What stands behind each backslash that starts an escape; it takes the next character along. -/
def escapes : List Char → List (List Char)
  | [] => []
  | '\\' :: c :: cs => (c :: cs) :: escapes cs
  | _ :: cs => escapes cs

/-- A text begins with a braced escape for a number beyond the code points. -/
def Outsized (cs : List Char) : Prop :=
  ∃ ds ns, 'u' :: '{' :: (ds ++ ['}']) <+: cs ∧ List.Forall₂ HexDigit ds ns ∧
    0x10FFFF < ofDigits 16 ns

theorem escapes_plain {c : Char} (hc : c ≠ '\\') (cs : List Char) :
    escapes (c :: cs) = escapes cs := by
  cases cs with
  | nil => simp [escapes]
  | cons d cs => simp [escapes, hc]

theorem escapes_append {e : List Char} (he : '\\' ∉ e) (rest : List Char) :
    escapes (e ++ rest) = escapes rest := by
  induction e with
  | nil => rfl
  | cons c e ih =>
    rw [List.mem_cons, not_or] at he
    rw [List.cons_append, escapes_plain (Ne.symm he.1), ih he.2]

theorem not_mem_of_forall₂ {R : Char → Nat → Prop} {ds : List Char} {ns : List Nat} {c : Char}
    (hc : ∀ n, ¬R c n) (h : List.Forall₂ R ds ns) : c ∉ ds := fun hmem =>
  (Text.exists_of_forall₂ h c hmem).elim hc

/-- An escape takes a character, and no backslash behind it. -/
theorem EscapeForm.exists_cons {e : List Char} {value : Option Nat} (h : EscapeForm e value) :
    ∃ c e', e = c :: e' ∧ '\\' ∉ e' := by
  have hhex : ∀ n, ¬HexDigit '\\' n := by
    intro n hn
    rw [← Text.hexDigit?_eq_some_iff] at hn
    exact absurd hn (by simp [show Text.hexDigit? '\\' = none by decide])
  have hoctal : ∀ n, ¬OctalDigit '\\' n := Text.isOctalDigit_eq_false_iff.1 (by decide)
  cases h with
  | braced hds => exact ⟨_, _, rfl, by simp [not_mem_of_forall₂ hhex hds]⟩
  | unicode hds => exact ⟨_, _, rfl, not_mem_of_forall₂ hhex hds⟩
  | hex hds => exact ⟨_, _, rfl, not_mem_of_forall₂ hhex hds⟩
  | octal hds hne =>
    cases hds with
    | nil => exact absurd rfl hne
    | cons _ hds => exact ⟨_, _, rfl, not_mem_of_forall₂ hoctal hds⟩
  | lineEnd | control | itself => exact ⟨_, [], rfl, by simp⟩
  | twoLineEnds => exact ⟨_, _, rfl, by decide⟩

theorem EscapeForm.escapes_append {e : List Char} {value : Option Nat} (h : EscapeForm e value)
    (rest : List Char) : escapes ('\\' :: (e ++ rest)) = (e ++ rest) :: escapes rest := by
  obtain ⟨c, e, rfl, he⟩ := h.exists_cons
  rw [List.cons_append, escapes, Literal.escapes_append he]

theorem ofDigits_octal_lt {ds : List Char} {ns : List Nat} (h : List.Forall₂ OctalDigit ds ns)
    (hlen : ds.length ≤ 3) : ofDigits 8 ns < 0x200 :=
  ofDigits_lt (by decide) (Text.forall_lt_of_forall₂ (fun _ _ h => h.1) h)
    (h.length_eq ▸ hlen)

/-- Only a braced escape names a number beyond the code points. -/
theorem EscapeForm.exists_braced {e : List Char} {n : Nat} (h : EscapeForm e (some n))
    (hn : 0x110000 ≤ n) :
    ∃ ds ns, e = 'u' :: '{' :: (ds ++ ['}']) ∧ List.Forall₂ HexDigit ds ns ∧
      n = ofDigits 16 ns := by
  have hhex {ds : List Char} {ns : List Nat} {k : Nat} (hds : List.Forall₂ HexDigit ds ns)
      (hlen : ds.length ≤ k) : ofDigits 16 ns < Nat.pow 16 k :=
    ofDigits_lt (by decide) (Text.forall_lt_of_forall₂ (fun _ _ h => h.1) hds)
      (hds.length_eq ▸ hlen)
  cases h with
  | @braced ds ns hds => exact ⟨ds, ns, rfl, hds, rfl⟩
  | unicode hds hlen =>
    have hlt := hhex hds hlen.le
    have hpow : Nat.pow 16 4 = 0x10000 := rfl
    omega
  | hex hds hlen =>
    have hlt := hhex hds hlen.le
    have hpow : Nat.pow 16 2 = 0x100 := rfl
    omega
  | octal hds _ hlen =>
    have hlt := ofDigits_octal_lt hds hlen
    omega
  | control h => exact absurd (CodePoint.ofChar _).isLt (Nat.not_lt.2 hn)
  | itself => exact absurd (CodePoint.ofChar _).isLt (Nat.not_lt.2 hn)

theorem EscapeForm.outsized {e : List Char} {n : Nat} (h : EscapeForm e (some n))
    (hn : 0x110000 ≤ n) (rest : List Char) : Outsized (e ++ rest) := by
  obtain ⟨ds, ns, rfl, hds, rfl⟩ := h.exists_braced hn
  exact ⟨ds, ns, List.prefix_append _ rest, hds, hn⟩

/-- A body spells code points unless one of its escapes is outsized. -/
theorem exists_spells {cs : List Char} (h : ∀ e ∈ escapes cs, ¬Outsized e) :
    ∃ ps, Spells cs ps := by
  induction hn : cs.length using Nat.strong_induction_on generalizing cs with
  | h n ih =>
    cases cs with
    | nil => exact ⟨[], .nil⟩
    | cons c cs =>
      by_cases hc : c = '\\'
      · subst hc
        cases cs with
        | nil => exact ⟨_, .backslash⟩
        | cons d cs =>
          obtain ⟨e, rest, value, hcs, hlongest⟩ := exists_longestForm d cs
          rw [← hcs] at h hn ⊢
          rw [hlongest.form.escapes_append] at h
          obtain ⟨hfirst, hrest⟩ := List.forall_mem_cons.1 h
          -- The first escape is not outsized, so its number is that of a code point.
          obtain ⟨p, rfl⟩ : ∃ p : Option CodePoint, value = p.map Fin.val := by
            cases value with
            | none => exact ⟨none, rfl⟩
            | some n =>
              have hlt : n < 0x110000 := Nat.not_le.1 fun hle =>
                hfirst (hlongest.form.outsized hle rest)
              exact ⟨some ⟨n, hlt⟩, rfl⟩
          have hsmaller : rest.length < n := by
            rw [← hn, List.length_cons, List.length_append]
            omega
          obtain ⟨ps, hps⟩ := ih rest.length hsmaller hrest rfl
          exact ⟨_, .escape hlongest hps⟩
      · rw [escapes_plain hc] at h
        obtain ⟨ps, hps⟩ := ih cs.length (by simp [← hn]) h rfl
        exact ⟨_, .plain hc hps⟩

theorem toOption_codePoint_eq_none_iff {n : Nat} :
    (codePoint n).toOption = none ↔ 0x110000 ≤ n := by
  unfold codePoint
  split
  · simp [Except.toOption]; omega
  · split <;> simp [Except.toOption] <;> omega

/-- An escape is refused exactly if it is outsized. -/
theorem outsized_iff {cs : List Char} :
    Outsized cs ↔ (escape? cs).any (fun x => x.value.toOption.isNone) = true := by
  constructor
  · rintro ⟨ds, ns, ⟨rest, rfl⟩, hds, hvalue⟩
    have hne : ds ≠ [] := by
      rintro rfl
      cases hds
      cases hvalue
    rw [escape?_braced hds hne]
    simp [toOption_codePoint_eq_none_iff.2 hvalue]
  · intro h
    cases cs with
    | nil => simp [escape?] at h
    | cons c cs =>
      obtain ⟨e, rest, value, hcs, hlongest⟩ := exists_longestForm c cs
      rw [← hcs, hlongest.escape?_eq] at h
      cases value with
      | none => simp [named, Except.toOption] at h
      | some n =>
        have hn : (codePoint n).toOption = none := by simpa [named] using h
        rw [← hcs]
        exact hlongest.form.outsized (toOption_codePoint_eq_none_iff.1 hn) rest

instance (cs : List Char) : Decidable (Outsized cs) := decidable_of_iff _ outsized_iff.symm

/-! ### Surrogates -/

theorem string_of_unescape {text : String} {ps : List CodePoint}
    (h : unescape 0 (body text) = .ok ps) :
    string text = (CodePoint.join? ps).elim (.error .unpairedSurrogate) (.ok ∘ String.ofList) := by
  simp only [string, h]
  cases CodePoint.join? ps <;> rfl

/-- A body with well-formed units is read as the text with these units. -/
theorem exists_string_of_unescape {text : String} {ps : List CodePoint}
    (h : unescape 0 (body text) = .ok ps) (hunits : CodeUnit.WellFormed (CodePoint.encode ps)) :
    ∃ t, string text = .ok t ∧ Text.utf16 t = CodePoint.encode ps := by
  obtain ⟨cs, hcs⟩ := Option.isSome_iff_exists.1 (CodePoint.isSome_join?_iff.2 hunits)
  refine ⟨String.ofList cs, by rw [string_of_unescape h, hcs]; rfl, ?_⟩
  rw [Text.utf16, String.toList_ofList, CodePoint.encode_join? hcs]

theorem ofCodePoints?_map_ofChar (t : String) :
    Constant.ofCodePoints? (t.toList.map .ofChar) = some (.string t) := by
  simp [Constant.ofCodePoints?, CodePoint.toChars?_map_ofChar]

/-- **Surrogates are joined exactly, or refused.**  A text without outsized escapes spells one list
of code points.  It is refused exactly if their units are not well-formed, and otherwise it is read
as the text with these units, which a constant can hold. -/
theorem string_joins_surrogates (text : String) (h : ∀ e ∈ escapes (body text), ¬Outsized e) :
    ∃ ps, Spells (body text) ps ∧ (∀ qs, Spells (body text) qs → qs = ps) ∧
      (string text = .error .unpairedSurrogate ↔ ¬CodeUnit.WellFormed (CodePoint.encode ps)) ∧
      (CodeUnit.WellFormed (CodePoint.encode ps) → ∃ t, string text = .ok t ∧
        Text.utf16 t = CodePoint.encode ps ∧
        Constant.ofCodePoints? (t.toList.map .ofChar) = some (.string t)) := by
  obtain ⟨ps, hps⟩ := exists_spells h
  refine ⟨ps, hps, fun qs hqs => ?_, ?_, fun hunits => ?_⟩
  · exact Except.ok.inj (hqs.unescape_eq.symm.trans hps.unescape_eq)
  · rw [string_of_unescape hps.unescape_eq, ← CodePoint.isSome_join?_iff]
    cases CodePoint.join? ps <;> simp
  · obtain ⟨t, ht, hencode⟩ := exists_string_of_unescape hps.unescape_eq hunits
    exact ⟨t, ht, hencode, ofCodePoints?_map_ofChar t⟩

/-- A pair of two kinds of escapes, on two lines. -/
theorem string_joins_surrogates_over_lines :
    let text := "'\\uD83D\\\n\\u\x7bDE00\x7d'"
    (∀ e ∈ escapes (body text), ¬Outsized e) ∧ ∃ ps, Spells (body text) ps ∧
      CodePoint.encode ps = Text.utf16 "😀" ∧ ∃ t, string text = .ok t ∧
        Text.utf16 t = Text.utf16 "😀" := by
  intro text
  have hsize : ∀ e ∈ escapes (body text), ¬Outsized e := by decide
  obtain ⟨ps, hps, -, -, hjoined⟩ := string_joins_surrogates text hsize
  have hread : unescape 0 (body text) = .ok [⟨0xD83D, by decide⟩, ⟨0xDE00, by decide⟩] := by decide
  obtain rfl := Except.ok.inj (hps.unescape_eq.symm.trans hread)
  obtain ⟨t, ht, hunits, -⟩ := hjoined (by decide)
  exact ⟨hsize, _, hps, by decide, t, ht, hunits⟩

end StackScript.Literal
