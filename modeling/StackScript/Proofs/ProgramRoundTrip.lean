import StackScript.Program.Json
import StackScript.Proofs.JsonRoundTrip

/-!
# Programs read back

Writing a program as JSON, compact or indented, and reading the text gives the program
(`Program.parse_write`).  Name and constants come back whatever they are: both zeros, the infinities
and not-a-number, and texts that look like one of these.  Code words come back as long as the reader
takes integers of so many digits.
-/

namespace StackScript

/-! ### Documents -/

theorem Constant.ofJson_toJson (path : List Step) (c : Constant) :
    Constant.ofJson path c.toJson = .ok c := by
  cases c with
  | number x =>
    cases x with
    | nan => rfl
    | infinity negative => cases negative <;> rfl
    | finite negative a => rfl
  | boolean b => rfl
  | string s => rfl

theorem validateAll_map {β : Type} {read : Nat → Json → Validated β} {write : β → Json}
    (h : ∀ i b, read i (write b) = .ok b) (i : Nat) (bs : List β) :
    validateAll read i (bs.map write) = .ok bs := by
  induction bs generalizing i with
  | nil => rfl
  | cons b bs ih => simp [validateAll, h, ih, Validated.both]

/-- A program in JSON stands for the program. -/
theorem Program.ofJson_toJson (p : Program) : Program.ofJson p.toJson = .ok p := by
  obtain ⟨name, code, constants⟩ := p
  have hword (i : Nat) (n : Int) : codeWord [.key "code", .index i] (.int n) = .ok n := rfl
  have hcode : validateAll (fun i => codeWord [.key "code", .index i]) 0 (code.map Json.int) =
      .ok code :=
    validateAll_map hword 0 code
  have hconstants : validateAll (fun i => Constant.ofJson [.key "constants", .index i]) 0
      (constants.map Constant.toJson) = .ok constants :=
    validateAll_map (fun _ c => Constant.ofJson_toJson _ c) 0 constants
  have hname : nameField [("name", .string name), ("code", .array (code.map .int)),
      ("constants", .array (constants.map Constant.toJson))] = .ok name := rfl
  simp only [toJson, ofJson, arrayField, hname]
  simp [Json.field?, List.lookup_cons, hcode, hconstants, Validated.both]

/-! ### Limits of the reader -/

open Json

theorem fits_constant (c : Constant) : fits 2 c.toJson = true := by
  cases c with
  | number x => cases x <;> simp [Constant.toJson, Double.toJson, fits, fitsFields, maxOpen]
  | boolean b => simp [Constant.toJson, fits, fitsFields, maxOpen]
  | string s => simp [Constant.toJson, fits, fitsFields, maxOpen]

theorem fitsAll_eq_true_iff {opened : Nat} {vs : List Json} :
    fitsAll opened vs = true ↔ ∀ v ∈ vs, fits opened v = true := by
  induction vs with
  | nil => simp [fitsAll]
  | cons v vs ih => simp [fitsAll, ih]

/-- Of a program only the code can be too large to be read. -/
theorem Program.fits_toJson_iff (p : Program) :
    fits 0 p.toJson = true ↔ ∀ n ∈ p.code, Decimal.digitCount n.natAbs ≤ maxIntegerDigits := by
  have hcode : fits 1 (.array (p.code.map .int)) = true ↔
      ∀ n ∈ p.code, Decimal.digitCount n.natAbs ≤ maxIntegerDigits := by
    simp [fits, fitsAll_eq_true_iff, maxOpen]
  have hconstants : fits 1 (.array (p.constants.map Constant.toJson)) = true := by
    simp [fits, fitsAll_eq_true_iff, maxOpen, fits_constant]
  have hname : fits 1 (.string p.name) = true := by simp [fits, maxOpen]
  have hobject (fields : List (String × Json)) : fits 0 (.object fields) = fitsFields 1 fields := by
    simp [fits]
  rw [← hcode, toJson, hobject]
  simp [fitsFields, hname, hconstants]

namespace Program

theorem parse_write_of_fits {p : Program} (h : fits 0 p.toJson = true) (style : Style) :
    Program.parse (p.toJson.write style) = .ok p := by
  rw [Program.parse, readDocument, parse?_write, if_pos h]
  exact p.ofJson_toJson

theorem parse_write_of_not_fits {p : Program} (h : ¬fits 0 p.toJson = true) (style : Style) :
    Program.parse (p.toJson.write style) = complain [] .notJson := by
  rw [Program.parse, readDocument, parse?_write, if_neg h]

/-- **Programs read back.**  The text of a program, in either style, is read as the same program if
no code word has too many digits for the reader, and is no document for it otherwise. -/
theorem parse_write (p : Program) (style : Style) :
    Program.parse (p.toJson.write style) =
      if ∀ n ∈ p.code, Decimal.digitCount n.natAbs ≤ maxIntegerDigits then .ok p
      else complain [] .notJson := by
  by_cases h : fits 0 p.toJson = true
  · rw [if_pos (p.fits_toJson_iff.1 h), parse_write_of_fits h]
  · rw [if_neg fun hshort => h (p.fits_toJson_iff.2 hshort), parse_write_of_not_fits h]

theorem lt_digitCount_pow {k : Nat} (hk : 0 < k) :
    k < Decimal.digitCount (10 ^ k : Int).natAbs := by
  have habs : (10 ^ k : Int).natAbs = 10 ^ k := by simp [Int.natAbs_pow]
  rw [Decimal.digitCount, habs, ← Nat.not_le, Nat.length_toDigits_le_iff (by decide) hk]
  exact Nat.lt_irrefl _

/-- The reader takes integers of 4300 digits, and this one has 4301. -/
theorem parse_write_long_word :
    Program.parse ((⟨"main", [10 ^ 4300], []⟩ : Program).toJson.write .compact) ≠
      .ok ⟨"main", [10 ^ 4300], []⟩ := by
  have hlong : ¬Decimal.digitCount (10 ^ 4300 : Int).natAbs ≤ maxIntegerDigits :=
    Nat.not_le.2 (lt_digitCount_pow (show 0 < 4300 by decide))
  rw [parse_write_of_not_fits]
  · simp [complain]
  · rw [fits_toJson_iff]
    simpa using hlong

end Program

end StackScript
