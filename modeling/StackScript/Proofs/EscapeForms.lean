import Mathlib.Data.List.Forall2
import Mathlib.Order.Lattice.Nat
import StackScript.Literal.Quoted
import StackScript.Proofs.Numeral

/-!
# The forms of an escape

`EscapeForm` lists what can stand behind a backslash, form by form, without a word about what
follows.  Forms overlap, as digits may be one escape or an escape and digits behind it, and then the
longest form that fits is meant (`LongestForm`).

* `LongestForm.escape?_eq` : the reader takes the longest form;
* `exists_longestForm` : there is one behind every backslash, unless it is the end of the text.
-/

namespace StackScript

/-! ### Digits -/

namespace Text

/-- A hexadecimal digit, in either case, and its value. -/
def HexDigit (c : Char) (n : Nat) : Prop := n < 16 ∧ (c = n.digitChar ∨ c = n.digitChar.toUpper)

/-- An octal digit and its value. -/
def OctalDigit (c : Char) (n : Nat) : Prop := n < 8 ∧ c = n.digitChar

instance (c : Char) (n : Nat) : Decidable (HexDigit c n) := inferInstanceAs (Decidable (_ ∧ _))

instance (c : Char) (n : Nat) : Decidable (OctalDigit c n) := inferInstanceAs (Decidable (_ ∧ _))

theorem hexDigit?_eq_some_iff {c : Char} {n : Nat} : hexDigit? c = some n ↔ HexDigit c n := by
  have hlower : ∀ n < 16, hexDigit? n.digitChar = some n := by decide
  have hupper : ∀ n < 16, hexDigit? n.digitChar.toUpper = some n := by decide
  constructor
  · intro h
    simp only [hexDigit?, Option.filter_eq_some_iff, decide_eq_true_eq] at h
    obtain ⟨h, hn⟩ := h
    refine ⟨hn, ?_⟩
    have hnumber : ∀ n < 10, n.digitChar.toNat = 48 + n := by decide
    have hletter : ∀ n < 16, 10 ≤ n → n.digitChar.toNat = 87 + n ∧
        n.digitChar.toUpper.toNat = 55 + n := by decide
    simp only [← Char.toNat_inj]
    simp only [asciiDigit?, Bool.and_eq_true, decide_eq_true_eq] at h
    split_ifs at h with hdigit hlow hup
    · have hle : 48 ≤ c.toNat ∧ c.toNat ≤ 57 := hdigit
      have hn : c.toNat - 48 = n := Option.some.inj h
      have := hnumber n
      omega
    · have hle : 97 ≤ c.toNat ∧ c.toNat ≤ 122 := hlow
      have hn : c.toNat - 97 + 10 = n := Option.some.inj h
      have := hletter n
      omega
    · have hle : 65 ≤ c.toNat ∧ c.toNat ≤ 90 := hup
      have hn : c.toNat - 65 + 10 = n := Option.some.inj h
      have := hletter n
      omega
  · rintro ⟨hn, rfl | rfl⟩
    · exact hlower n hn
    · exact hupper n hn

theorem isHexDigit_iff {c : Char} : isHexDigit c = true ↔ ∃ n, HexDigit c n := by
  simp only [isHexDigit, Option.isSome_iff_exists, hexDigit?_eq_some_iff]

theorem asciiDigit?_of_octalDigit {c : Char} {n : Nat} (h : OctalDigit c n) :
    asciiDigit? c = some n := by
  have hall : ∀ n < 8, asciiDigit? n.digitChar = some n := by decide
  obtain ⟨hn, rfl⟩ := h
  exact hall n hn

theorem isOctalDigit_iff {c : Char} : isOctalDigit c = true ↔ ∃ n, OctalDigit c n := by
  constructor
  · intro h
    simp only [isOctalDigit, Bool.and_eq_true, decide_eq_true_eq] at h
    have hle : 48 ≤ c.toNat ∧ c.toNat ≤ 55 := h
    have hnumber : ∀ n < 8, n.digitChar.toNat = 48 + n := by decide
    have hn : c.toNat - 48 < 8 := by omega
    refine ⟨c.toNat - 48, hn, Char.toNat_inj.1 ?_⟩
    rw [hnumber _ hn]
    omega
  · rintro ⟨n, hn, rfl⟩
    have hall : ∀ n < 8, isOctalDigit n.digitChar = true := by decide
    exact hall n hn

theorem OctalDigit.isDigit {c : Char} {n : Nat} (h : OctalDigit c n) : c.isDigit = true := by
  have hall : ∀ n < 8, n.digitChar.isDigit = true := by decide
  rw [h.2]
  exact hall n h.1

theorem isOctalDigit_eq_false_iff {c : Char} :
    isOctalDigit c = false ↔ ∀ n, ¬OctalDigit c n := by
  rw [Bool.eq_false_iff, Ne, isOctalDigit_iff, not_exists]

section Lists

variable {R : Char → Nat → Prop} {ds : List Char} {ns : List Nat}

theorem filterMap_of_forall₂ {f : Char → Option Nat} (hf : ∀ c n, R c n → f c = some n)
    (h : List.Forall₂ R ds ns) : ds.filterMap f = ns := by
  induction h with
  | nil => rfl
  | cons hc _ ih => rw [List.filterMap_cons_some (hf _ _ hc), ih]

theorem exists_forall₂ (h : ∀ c ∈ ds, ∃ n, R c n) : ∃ ns, List.Forall₂ R ds ns := by
  induction ds with
  | nil => exact ⟨[], .nil⟩
  | cons c ds ih =>
    obtain ⟨hc, hds⟩ := List.forall_mem_cons.1 h
    obtain ⟨n, hn⟩ := hc
    obtain ⟨ns, hns⟩ := ih hds
    exact ⟨n :: ns, .cons hn hns⟩

theorem exists_of_forall₂ (h : List.Forall₂ R ds ns) : ∀ c ∈ ds, ∃ n, R c n := by
  induction h with
  | nil => simp
  | cons hc _ ih => exact List.forall_mem_cons.2 ⟨⟨_, hc⟩, ih⟩

theorem forall_lt_of_forall₂ {base : Nat} (hR : ∀ c n, R c n → n < base)
    (h : List.Forall₂ R ds ns) : ∀ n ∈ ns, n < base := by
  induction h with
  | nil => simp
  | cons hc _ ih => exact List.forall_mem_cons.2 ⟨hR _ _ hc, ih⟩

end Lists

theorem foldl_digits_lt {base : Nat} {ds : List Nat} (hds : ∀ d ∈ ds, d < base)
    {n bound : Nat} (hn : n < bound) :
    ds.foldl (fun n d => base * n + d) n < bound * Nat.pow base ds.length := by
  induction ds generalizing n bound with
  | nil => simpa using hn
  | cons d ds ih =>
    obtain ⟨hd, hds⟩ := List.forall_mem_cons.1 hds
    have hnext : base * n + d < bound * base :=
      calc base * n + d < base * n + base := by omega
        _ = (n + 1) * base := by rw [Nat.add_mul, Nat.one_mul, Nat.mul_comm]
        _ ≤ bound * base := Nat.mul_le_mul_right base hn
    calc _ < bound * base * Nat.pow base ds.length := ih hds hnext
      _ = bound * Nat.pow base (ds.length + 1) := by
        rw [Nat.mul_assoc, Nat.mul_comm base]
        rfl

theorem ofDigits_lt {base n : Nat} {ds : List Nat} (hbase : 0 < base)
    (hds : ∀ d ∈ ds, d < base) (hn : ds.length ≤ n) : ofDigits base ds < Nat.pow base n := by
  have h := foldl_digits_lt hds Nat.zero_lt_one
  rw [Nat.one_mul] at h
  exact Nat.lt_of_lt_of_le h (Nat.pow_le_pow_right hbase hn)

end Text

namespace Literal

open Text (HexDigit OctalDigit ofDigits ofDigits_lt)

/-! ### Forms -/

/-- The line ends that a backslash hides. -/
def lineEnds : List Char := ['\n', '\r', '\u2028', '\u2029']

/-- The letters that a backslash turns into control characters. -/
def controls : List (Char × Char) :=
  [('b', '\x08'), ('t', '\t'), ('n', '\n'), ('v', '\x0b'), ('f', '\x0c'), ('r', '\r')]

/-- The forms of an escape: the characters behind the backslash, and the number of the code point
that they stand for, if they stand for one. -/
inductive EscapeForm : List Char → Option Nat → Prop
  | braced {ds : List Char} {ns : List Nat} (h : List.Forall₂ HexDigit ds ns) (hne : ds ≠ []) :
    EscapeForm ('u' :: '{' :: (ds ++ ['}'])) (some (ofDigits 16 ns))
  | unicode {ds : List Char} {ns : List Nat} (h : List.Forall₂ HexDigit ds ns)
    (hlen : ds.length = 4) : EscapeForm ('u' :: ds) (some (ofDigits 16 ns))
  | hex {ds : List Char} {ns : List Nat} (h : List.Forall₂ HexDigit ds ns)
    (hlen : ds.length = 2) : EscapeForm ('x' :: ds) (some (ofDigits 16 ns))
  | octal {ds : List Char} {ns : List Nat} (h : List.Forall₂ OctalDigit ds ns) (hne : ds ≠ [])
    (hlen : ds.length ≤ 3) : EscapeForm ds (some (ofDigits 8 ns))
  | lineEnd {c : Char} (h : c ∈ lineEnds) : EscapeForm [c] none
  | twoLineEnds : EscapeForm ['\r', '\n'] none
  | control {c d : Char} (h : (c, d) ∈ controls) : EscapeForm [c] (some d.toNat)
  | itself {c : Char} (hoctal : ∀ n, ¬OctalDigit c n) (hline : c ∉ lineEnds)
    (hcontrol : ∀ d, (c, d) ∉ controls) : EscapeForm [c] (some c.toNat)

/-- The form that is read where several forms fit the text behind a backslash: the longest one. -/
structure LongestForm (e rest : List Char) (value : Option Nat) : Prop where
  form : EscapeForm e value
  longest : ∀ e' value', EscapeForm e' value' → e' <+: e ++ rest → e'.length ≤ e.length

/-! ### How the reader finds a form -/

section Escapes

variable {ds rest : List Char} {ns : List Nat}

theorem ofHex_of_forall₂ (h : List.Forall₂ HexDigit ds ns) : ofHex ds = ofDigits 16 ns := by
  have hvalues : ds.filterMap Text.hexDigit? = ns :=
    Text.filterMap_of_forall₂ (fun _ _ => Text.hexDigit?_eq_some_iff.2) h
  rw [ofHex, hvalues]

theorem isHexDigit_of_forall₂ (h : List.Forall₂ HexDigit ds ns) :
    ∀ c ∈ ds, Text.isHexDigit c = true := fun c hc =>
  Text.isHexDigit_iff.2 (Text.exists_of_forall₂ h c hc)

theorem escape?_braced (h : List.Forall₂ HexDigit ds ns) (hne : ds ≠ []) :
    escape? ('u' :: '{' :: (ds ++ ['}']) ++ rest) =
      some ⟨codePoint (ofDigits 16 ns), ('u' :: '{' :: (ds ++ ['}'])).length⟩ := by
  have hend : Text.isHexDigit '}' = false := by decide
  have htake : (ds ++ '}' :: rest).takeWhile Text.isHexDigit = ds := by
    rw [List.takeWhile_append_of_pos (isHexDigit_of_forall₂ h)]
    simp [hend]
  simp [escape?, bracedEscape?, htake, hne, ofHex_of_forall₂ h]

theorem fixedEscape?_of_forall₂ (h : List.Forall₂ HexDigit ds ns) (rest : List Char) :
    fixedEscape? ds.length (ds ++ rest) =
      some ⟨codePoint (ofDigits 16 ns), ds.length + 1⟩ := by
  simpa [fixedEscape?, ofHex_of_forall₂ h] using isHexDigit_of_forall₂ h

theorem escape?_unicode (h : List.Forall₂ HexDigit ds ns) (hlen : ds.length = 4) :
    escape? ('u' :: ds ++ rest) = some ⟨codePoint (ofDigits 16 ns), ('u' :: ds).length⟩ := by
  have hfixed := fixedEscape?_of_forall₂ h rest
  nth_rewrite 1 [hlen] at hfixed
  cases ds with
  | nil => cases hlen
  | cons d ds =>
    have hd : d ≠ '{' := by
      rintro rfl
      exact absurd (isHexDigit_of_forall₂ h '{' List.mem_cons_self) (by decide)
    rw [List.cons_append] at hfixed
    rw [List.cons_append, List.cons_append, escape?, hfixed]
    · rfl
    · rintro cs hcs
      exact hd (List.cons.inj hcs).1

theorem escape?_hex (h : List.Forall₂ HexDigit ds ns) (hlen : ds.length = 2) :
    escape? ('x' :: ds ++ rest) = some ⟨codePoint (ofDigits 16 ns), ('x' :: ds).length⟩ := by
  have hfixed := fixedEscape?_of_forall₂ h rest
  nth_rewrite 1 [hlen] at hfixed
  rw [List.cons_append, escape?, hfixed]
  rfl

/-- Behind a backslash, `u`, `x` and a whole line break apart, the octal digits or the one character
count. -/
theorem escape?_character {c : Char} (hu : c ≠ 'u') (hx : c ≠ 'x')
    (hline : c = '\r' → ∀ d ∈ rest.head?, d ≠ '\n') :
    escape? (c :: rest) =
      if Text.isOctalDigit c then
        let ds := c :: (rest.take 2).takeWhile Text.isOctalDigit
        some ⟨codePoint (ofDigits 8 (ds.filterMap Text.asciiDigit?)), ds.length⟩
      else some (plainEscape c) := by
  rw [escape?]
  · simp [hu]
  · simp [hu]
  · simp [hx]
  · rintro cs hc rfl
    exact hline hc '\n' rfl rfl

theorem escape?_plain {c : Char} (hu : c ≠ 'u') (hx : c ≠ 'x')
    (hline : c = '\r' → ∀ d ∈ rest.head?, d ≠ '\n') (hoctal : Text.isOctalDigit c = false) :
    escape? (c :: rest) = some (plainEscape c) := by
  rw [escape?_character hu hx hline, if_neg (Bool.eq_false_iff.1 hoctal)]

theorem escape?_octal (h : List.Forall₂ OctalDigit ds ns) (hne : ds ≠ [])
    (hlen : ds.length ≤ 3)
    (hnext : ds.length < 3 → ∀ d ∈ rest.head?, ∀ n, ¬OctalDigit d n) :
    escape? (ds ++ rest) = some ⟨codePoint (ofDigits 8 ns), ds.length⟩ := by
  cases h with
  | nil => exact absurd rfl hne
  | @cons c n ds ns hc hds =>
    have hoctals : ∀ d ∈ ds, Text.isOctalDigit d = true := fun d hd =>
      Text.isOctalDigit_iff.2 (Text.exists_of_forall₂ hds d hd)
    have hnone : (rest.take (2 - ds.length)).takeWhile Text.isOctalDigit = [] := by
      cases rest with
      | nil => simp
      | cons d rest =>
        by_cases hshort : ds.length < 2
        · have hd := Text.isOctalDigit_eq_false_iff.2 (hnext (Nat.succ_lt_succ hshort) d rfl)
          have hcount : 2 - ds.length = 1 - ds.length + 1 := by omega
          rw [hcount, List.take_succ_cons, List.takeWhile_cons_of_neg (Bool.eq_false_iff.1 hd)]
        · have hcount : 2 - ds.length = 0 := by omega
          rw [hcount]
          rfl
    have hmore : ((ds ++ rest).take 2).takeWhile Text.isOctalDigit = ds := by
      rw [List.take_append, List.take_of_length_le (Nat.le_of_succ_le_succ hlen),
        List.takeWhile_append_of_pos hoctals, hnone, List.append_nil]
    have hdigits : (c :: ds).filterMap Text.asciiDigit? = n :: ns :=
      Text.filterMap_of_forall₂ (fun _ _ => Text.asciiDigit?_of_octalDigit) (.cons hc hds)
    have hne {d : Char} (hd : ∀ n < 8, n.digitChar ≠ d) : c ≠ d := by
      rw [hc.2]
      exact hd n hc.1
    have hoctal : Text.isOctalDigit c = true := Text.isOctalDigit_iff.2 ⟨n, hc⟩
    rw [List.cons_append, escape?_character (hne (by decide)) (hne (by decide))
      (fun h => absurd h (hne (by decide))), if_pos hoctal, hmore]
    dsimp only
    rw [hdigits]

end Escapes

theorem isLineEnd_iff {c : Char} : isLineEnd c = true ↔ c ∈ lineEnds := by
  simp [isLineEnd, lineEnds, or_assoc]

theorem control?_eq_some_iff {c d : Char} : control? c = some d ↔ (c, d) ∈ controls := by
  unfold control?
  split <;> simp_all [controls, eq_comm]

theorem plainEscape_lineEnd {c : Char} (h : c ∈ lineEnds) : plainEscape c = ⟨.ok none, 1⟩ := by
  rw [plainEscape, if_pos (isLineEnd_iff.2 h)]

theorem plainEscape_control {c d : Char} (h : (c, d) ∈ controls) :
    plainEscape c = ⟨.ok (some (.ofChar d)), 1⟩ := by
  have hline : ∀ x ∈ controls, isLineEnd x.1 = false := forall_mem_of_all (by decide)
  rw [plainEscape, if_neg (Bool.eq_false_iff.1 (hline _ h)), control?_eq_some_iff.2 h]
  rfl

theorem plainEscape_itself {c : Char} (hline : c ∉ lineEnds) (hcontrol : ∀ d, (c, d) ∉ controls) :
    plainEscape c = ⟨.ok (some (.ofChar c)), 1⟩ := by
  have hnone : control? c = none :=
    Option.eq_none_iff_forall_ne_some.2 fun d hd => hcontrol d (control?_eq_some_iff.1 hd)
  rw [plainEscape, if_neg (fun h => hline (isLineEnd_iff.1 h)), hnone]
  rfl

theorem EscapeForm.of_plain {c : Char} (hoctal : Text.isOctalDigit c = false)
    (hline : isLineEnd c = false) (hcontrol : control? c = none) :
    EscapeForm [c] (some c.toNat) := by
  refine .itself (Text.isOctalDigit_eq_false_iff.1 hoctal) (fun h => ?_) fun d h => ?_
  · exact Bool.eq_false_iff.1 hline (isLineEnd_iff.2 h)
  · rw [control?_eq_some_iff.2 h] at hcontrol
    cases hcontrol

theorem codePoint_val (p : CodePoint) : codePoint p.val = .ok (some p) := dif_pos p.isLt

theorem exists_of_bracedEscape? {cs : List Char} {x : Escape} (h : bracedEscape? cs = some x) :
    ∃ ds ns rest, cs = ds ++ '}' :: rest ∧ List.Forall₂ HexDigit ds ns ∧ ds ≠ [] := by
  unfold bracedEscape? at h
  dsimp only at h
  split at h
  · cases h
  · next hne =>
    split at h
    · next rest hrest =>
      have hall : ∀ c ∈ cs.takeWhile Text.isHexDigit, ∃ n, HexDigit c n := fun c hc =>
        Text.isHexDigit_iff.1 (List.all_eq_true.1 List.all_takeWhile c hc)
      obtain ⟨ns, hns⟩ := Text.exists_forall₂ hall
      refine ⟨_, ns, rest, ?_, hns, by simpa using hne⟩
      have htake := List.prefix_iff_eq_take.1 (List.takeWhile_prefix Text.isHexDigit (l := cs))
      have hcs := List.take_append_drop (cs.takeWhile Text.isHexDigit).length cs
      rw [← htake, hrest] at hcs
      exact hcs.symm
    · cases h

theorem exists_of_fixedEscape? {count : Nat} {cs : List Char} {x : Escape}
    (h : fixedEscape? count cs = some x) :
    ∃ ds ns rest, cs = ds ++ rest ∧ List.Forall₂ HexDigit ds ns ∧ ds.length = count := by
  unfold fixedEscape? at h
  dsimp only at h
  split at h
  · next hdigits =>
    have hall : ∀ c ∈ cs.take count, ∃ n, HexDigit c n := fun c hc =>
      Text.isHexDigit_iff.1 (List.all_eq_true.1 hdigits.2 c hc)
    obtain ⟨ns, hns⟩ := Text.exists_forall₂ hall
    exact ⟨_, ns, cs.drop count, (List.take_append_drop count cs).symm, hns, hdigits.1⟩
  · cases h

/-- What a number stands for, if it is that of a code point. -/
def named (value : Option Nat) : Except StringFault (Option CodePoint) :=
  value.elim (.ok none) codePoint

theorem EscapeForm.plainEscape_eq {c : Char} {value : Option Nat} (h : EscapeForm [c] value)
    (hoctal : Text.isOctalDigit c = false) : plainEscape c = ⟨named value, 1⟩ := by
  cases h with
  | unicode hds hlen | hex hds hlen => cases hlen
  | octal hds =>
    cases hds with
    | cons hc => exact absurd hc (Text.isOctalDigit_eq_false_iff.1 hoctal _)
  | lineEnd hc => exact plainEscape_lineEnd hc
  | control hd =>
    rw [plainEscape_control hd, ← codePoint_val]
    rfl
  | itself _ hline hcontrol =>
    rw [plainEscape_itself hline hcontrol, ← codePoint_val]
    rfl

/-- No form but that of one character fits behind a backslash. -/
def OnlySingle (cs : List Char) : Prop :=
  ∀ e value, EscapeForm e value → e <+: cs → e.length ≤ 1

namespace OnlySingle

variable {c : Char} {cs : List Char}

theorem bracedEscape?_eq_none (h : OnlySingle ('u' :: '{' :: cs)) : bracedEscape? cs = none := by
  refine Option.eq_none_iff_forall_ne_some.2 fun x hx => ?_
  obtain ⟨ds, ns, rest, rfl, hds, hne⟩ := exists_of_bracedEscape? hx
  have hle := h _ _ (.braced hds hne) ⟨rest, by simp⟩
  simp at hle

theorem fixedEscape?_eq_none {count : Nat} (hcount : count ≠ 0) (h : OnlySingle (c :: cs))
    (hform : ∀ ds ns, List.Forall₂ HexDigit ds ns → ds.length = count →
      EscapeForm (c :: ds) (some (ofDigits 16 ns))) : fixedEscape? count cs = none := by
  refine Option.eq_none_iff_forall_ne_some.2 fun x hx => ?_
  obtain ⟨ds, ns, rest, rfl, hds, hlen⟩ := exists_of_fixedEscape? hx
  have hle := h _ _ (hform ds ns hds hlen) ⟨rest, by simp⟩
  rw [List.length_cons] at hle
  omega

theorem escape?_eq (h : OnlySingle (c :: cs)) (hoctal : Text.isOctalDigit c = false) :
    escape? (c :: cs) = some (plainEscape c) := by
  by_cases hu : c = 'u'
  · subst hu
    by_cases hopen : ∃ ds, cs = '{' :: ds
    · obtain ⟨ds, rfl⟩ := hopen
      rw [escape?, h.bracedEscape?_eq_none]
      rfl
    · rw [escape?, h.fixedEscape?_eq_none (by decide) fun _ _ => .unicode]
      · rfl
      · exact fun ds hds => hopen ⟨ds, hds⟩
  by_cases hx : c = 'x'
  · subst hx
    rw [escape?, h.fixedEscape?_eq_none (by decide) fun _ _ => .hex]
    rfl
  refine escape?_plain hu hx ?_ hoctal
  rintro rfl d hd rfl
  obtain ⟨cs, rfl⟩ := List.head?_eq_some_iff.1 hd
  exact absurd (h _ _ .twoLineEnds ⟨cs, rfl⟩) (by decide)

end OnlySingle

namespace LongestForm

variable {e rest : List Char} {value : Option Nat}

theorem not_octalDigit_head (h : LongestForm e rest value) {ns : List Nat}
    (he : List.Forall₂ OctalDigit e ns) (hlen : e.length < 3) :
    ∀ d ∈ rest.head?, ∀ n, ¬OctalDigit d n := by
  intro d hd n hn
  obtain ⟨rest, rfl⟩ := List.head?_eq_some_iff.1 hd
  have hform : EscapeForm (e ++ [d]) (some (ofDigits 8 (ns ++ [n]))) :=
    .octal (List.rel_append he (.cons hn .nil)) (by simp) (by rwa [List.length_append])
  have hle := h.longest _ _ hform ⟨rest, by simp⟩
  rw [List.length_append] at hle
  exact Nat.not_succ_le_self _ hle

theorem escape?_single {c : Char} (h : LongestForm [c] rest value)
    (hoctal : Text.isOctalDigit c = false) : escape? (c :: rest) = some ⟨named value, 1⟩ := by
  have honly : OnlySingle (c :: rest) := h.longest
  rw [honly.escape?_eq hoctal, h.form.plainEscape_eq hoctal]

/-- The longest form is read. -/
theorem escape?_eq (h : LongestForm e rest value) :
    escape? (e ++ rest) = some ⟨named value, e.length⟩ := by
  cases h.form with
  | braced hds hne => exact escape?_braced hds hne
  | unicode hds hlen => exact escape?_unicode hds hlen
  | hex hds hlen => exact escape?_hex hds hlen
  | octal hds hne hlen => exact escape?_octal hds hne hlen (h.not_octalDigit_head hds)
  | twoLineEnds => rfl
  | lineEnd hc =>
    have hoctal : ∀ c ∈ lineEnds, Text.isOctalDigit c = false := forall_mem_of_all (by decide)
    exact h.escape?_single (hoctal _ hc)
  | control hc =>
    have hoctal : ∀ x ∈ controls, Text.isOctalDigit x.1 = false := forall_mem_of_all (by decide)
    exact h.escape?_single (hoctal _ hc)
  | itself hoctal => exact h.escape?_single (Text.isOctalDigit_eq_false_iff.2 hoctal)

end LongestForm

theorem EscapeForm.exists_single (c : Char) : ∃ value, EscapeForm [c] value := by
  by_cases hoctal : ∃ n, OctalDigit c n
  · obtain ⟨n, hn⟩ := hoctal
    exact ⟨_, .octal (.cons hn .nil) (by simp) (by simp)⟩
  by_cases hline : c ∈ lineEnds
  · exact ⟨_, .lineEnd hline⟩
  by_cases hcontrol : ∃ d, (c, d) ∈ controls
  · obtain ⟨d, hd⟩ := hcontrol
    exact ⟨_, .control hd⟩
  · exact ⟨_, .itself (not_exists.1 hoctal) hline (not_exists.1 hcontrol)⟩

/-- Behind a backslash some form fits, and so there is a longest one. -/
theorem exists_longestForm (c : Char) (cs : List Char) :
    ∃ e rest value, e ++ rest = c :: cs ∧ LongestForm e rest value := by
  let lengths : Set Nat := {k | ∃ e value, EscapeForm e value ∧ e <+: c :: cs ∧ e.length = k}
  have hbound : BddAbove lengths := by
    refine ⟨(c :: cs).length, ?_⟩
    rintro k ⟨e, value, -, hprefix, rfl⟩
    exact hprefix.length_le
  have hnonempty : lengths.Nonempty := by
    obtain ⟨value, hform⟩ := EscapeForm.exists_single c
    exact ⟨1, [c], value, hform, ⟨cs, rfl⟩, rfl⟩
  obtain ⟨e, value, hform, ⟨rest, hrest⟩, hlength⟩ := Nat.sSup_mem hnonempty hbound
  refine ⟨e, rest, value, hrest, hform, fun e' value' hform' hprefix => ?_⟩
  rw [hrest] at hprefix
  rw [hlength]
  exact le_csSup hbound ⟨e', value', hform', hprefix, rfl⟩

end Literal

end StackScript
