import StackScript.Proofs.JsonNumber

/-!
# JSON round trip

The text of a value is read as the value (`Json.parse?_write`).  The proof goes through the tokens
of the value: its text splits into them, in either style (`Json.lexAll_writeAt`), and reading them
builds the value (`Json.readAll_tokens`).

Not every value can be read: the reader has limits on how many containers are open and on how long
an integer is.  `Json.fits` says which values keep to them.
-/

namespace StackScript.Json

/-! ### Tokens of a value -/

mutual

/-- The tokens of a value. -/
def tokens : Json → List Token
  | null => [.bare "null".toList]
  | bool b => [.bare (if b then "true" else "false").toList]
  | int n => [.bare (integer n)]
  | float x => [.bare (number x)]
  | string s => [.string s]
  | array [] => [.openArray, .closeArray]
  | array (v :: vs) => .openArray :: tokens v ++ itemTokens vs ++ [.closeArray]
  | object [] => [.openObject, .closeObject]
  | object ((k, v) :: fields) =>
    .openObject :: .string k :: .colon :: tokens v ++ fieldTokens fields ++ [.closeObject]

/-- The tokens of further items. -/
def itemTokens : List Json → List Token
  | [] => []
  | v :: vs => .comma :: tokens v ++ itemTokens vs

/-- The tokens of further fields. -/
def fieldTokens : List (String × Json) → List Token
  | [] => []
  | (k, v) :: fields => .comma :: .string k :: .colon :: tokens v ++ fieldTokens fields

end

/-! ### Splitting text into tokens -/

theorem lexAll_cons {state state' : Lexing} {ts ts' : List Token} {c : Char}
    (h : lexChar state ts c = some (state', ts')) (cs : List Char) :
    lexAll state ts (c :: cs) = lexAll state' ts' cs := by
  cases state <;> simp only [lexAll, h]

/-- Characters of bare words. -/
def IsBare (c : Char) : Prop := c ≠ '"' ∧ isBlank c = false ∧ mark? c = none

instance : DecidablePred IsBare := fun c =>
  inferInstanceAs (Decidable (c ≠ '"' ∧ isBlank c = false ∧ mark? c = none))

/-- A bare word does not go on. -/
def Closed (cs : List Char) : Prop := ∀ c ∈ cs.head?, ¬IsBare c

theorem lexAll_bare_append {ts : List Token} {w : List Char} (hw : ∀ c ∈ w, IsBare c)
    (done rest : List Char) :
    lexAll (.bare done) ts (w ++ rest) = lexAll (.bare (w.reverse ++ done)) ts rest := by
  induction w generalizing done with
  | nil => rfl
  | cons c w ih =>
    obtain ⟨⟨hquote, hblank, hmark⟩, hw⟩ := List.forall_mem_cons.1 hw
    have hstep : lexChar (.bare done) ts c = some (.bare (c :: done), ts) := by
      simp [lexChar, hquote, hblank, hmark]
    rw [List.cons_append, lexAll_cons hstep, ih hw]
    simp

/-- A word ends where something else begins. -/
theorem lexAll_bare_of_closed {ts : List Token} {done rest : List Char} (hrest : Closed rest) :
    lexAll (.bare done) ts rest = lexAll .between (.bare done.reverse :: ts) rest := by
  cases rest with
  | nil => rfl
  | cons c rest =>
    have hc : c = '"' ∨ isBlank c ∨ (mark? c).isSome := by
      have hbare := hrest c rfl
      simp only [IsBare, not_and_or, not_not, Bool.not_eq_false] at hbare
      rwa [← ne_eq, Option.ne_none_iff_isSome] at hbare
    have hstep : lexChar (.bare done) ts c = some (outside (.bare done.reverse :: ts) c) := by
      simp [lexChar, hc]
    have hstep' : lexChar .between (.bare done.reverse :: ts) c =
        some (outside (.bare done.reverse :: ts) c) := rfl
    rw [lexAll_cons hstep, lexAll_cons hstep']

/-- **Words.** -/
theorem lexAll_word {ts : List Token} {w rest : List Char} (hne : w ≠ [])
    (hw : ∀ c ∈ w, IsBare c) (hrest : Closed rest) :
    lexAll .between ts (w ++ rest) = lexAll .between (.bare w :: ts) rest := by
  cases w with
  | nil => exact absurd rfl hne
  | cons c w =>
    obtain ⟨⟨hquote, hblank, hmark⟩, hw⟩ := List.forall_mem_cons.1 hw
    have hstep : lexChar .between ts c = some (.bare [c], ts) := by
      simp [lexChar, outside, hquote, hblank, hmark]
    rw [List.cons_append, lexAll_cons hstep, lexAll_bare_append hw, lexAll_bare_of_closed hrest]
    simp

theorem mark?_eq_some_cases {c : Char} {t : Token} (h : mark? c = some t) :
    c ∈ ['[', ']', '{', '}', ',', ':'] := by
  unfold mark? at h
  split at h <;> simp_all

theorem lexAll_mark {ts : List Token} {c : Char} {t : Token} (h : mark? c = some t)
    (rest : List Char) : lexAll .between ts (c :: rest) = lexAll .between (t :: ts) rest := by
  have hplain : ∀ d ∈ ['[', ']', '{', '}', ',', ':'], d ≠ '"' ∧ isBlank d = false :=
    forall_mem_of_all (by decide)
  obtain ⟨hquote, hblank⟩ := hplain c (mark?_eq_some_cases h)
  have hstep : lexChar .between ts c = some (.between, t :: ts) := by
    simp [lexChar, outside, hquote, hblank, h]
  exact lexAll_cons hstep rest

theorem lexAll_blanks {ts : List Token} {w : List Char} (h : ∀ c ∈ w, isBlank c)
    (rest : List Char) : lexAll .between ts (w ++ rest) = lexAll .between ts rest := by
  induction w with
  | nil => rfl
  | cons c w ih =>
    obtain ⟨hc, hw⟩ := List.forall_mem_cons.1 h
    have hquote : c ≠ '"' := by
      rintro rfl
      exact absurd hc (by decide)
    have hstep : lexChar .between ts c = some (.between, ts) := by
      simp [lexChar, outside, hquote, hc]
    rw [List.cons_append, lexAll_cons hstep, ih hw]

/-! ### Quoted text -/

theorem hexDigit?_digitChar : ∀ d < 16, Text.hexDigit? d.digitChar = some d := by decide

/-- Four hexadecimal digits of a character that is no surrogate. -/
theorem lexAll_hex4 {ts : List Token} {n : Nat} (hn : n < 0xD800) (done rest : List Char) :
    lexAll (.unicode done 4 0) ts (Text.hex4 n ++ rest) =
      lexAll (.string (Char.ofNat n :: done)) ts rest := by
  have hdigit (d : Nat) : Text.hexDigit? (d % 16).digitChar = some (d % 16) :=
    hexDigit?_digitChar (d % 16) (Nat.mod_lt d (by decide))
  have hstep (left code d : Nat) (hleft : 1 < left) :
      lexChar (.unicode done left code) ts (d % 16).digitChar =
        some (.unicode done (left - 1) (16 * code + d % 16), ts) := by
    simp [lexChar, hdigit, Nat.not_le.2 hleft]
  have hlast (code d : Nat) (h : 16 * code + d % 16 = n) :
      lexChar (.unicode done 1 code) ts (d % 16).digitChar =
        some (.string (Char.ofNat n :: done), ts) := by
    have hescaped : escaped done n = some (.string (Char.ofNat n :: done)) := by
      unfold escaped
      rw [if_neg (by omega), if_neg (by omega)]
    simp [lexChar, hdigit, h, hescaped]
  simp only [Text.hex4, List.map_cons, List.map_nil, List.cons_append, List.nil_append]
  rw [lexAll_cons (hstep 4 0 _ (by decide)), lexAll_cons (hstep 3 _ _ (by decide)),
    lexAll_cons (hstep 2 _ _ (by decide)), lexAll_cons (hlast _ _ (by omega))]

/-- One character of a string is read back, however it is written. -/
theorem lexAll_escapeChar {ts : List Token} (c : Char) (done rest : List Char) :
    lexAll (.string done) ts (Text.escapeChar c ++ rest) =
      lexAll (.string (c :: done)) ts rest := by
  unfold Text.escapeChar
  split_ifs with h₁ h₂ h₃ h₄ h₅ h₆ h₇ h₈
  · rw [h₁]; rfl
  · rw [h₂]; rfl
  · rw [h₃]; rfl
  · rw [h₄]; rfl
  · rw [h₅]; rfl
  · rw [h₆]; rfl
  · rw [h₇]; rfl
  · have hback : lexChar (.string done) ts '\\' = some (.escape done, ts) := rfl
    have hletter : lexChar (.escape done) ts 'u' = some (.unicode done 4 0, ts) := rfl
    rw [List.cons_append, lexAll_cons hback, List.cons_append, lexAll_cons hletter,
      lexAll_hex4 (by omega), Char.ofNat_toNat]
  · have hstep : lexChar (.string done) ts c = some (.string (c :: done), ts) := by
      simp [lexChar, h₁, h₂, h₈]
    exact lexAll_cons hstep rest

theorem lexAll_flatMap_escapeChar {ts : List Token} (cs done rest : List Char) :
    lexAll (.string done) ts (cs.flatMap Text.escapeChar ++ rest) =
      lexAll (.string (cs.reverse ++ done)) ts rest := by
  induction cs generalizing done with
  | nil => rfl
  | cons c cs ih =>
    rw [List.flatMap_cons, List.append_assoc, lexAll_escapeChar, ih]
    simp

/-- **Strings.** -/
theorem lexAll_quote {ts : List Token} (s : String) (rest : List Char) :
    lexAll .between ts ((Text.quote s).toList ++ rest) =
      lexAll .between (.string s :: ts) rest := by
  have hopen : lexChar .between ts '"' = some (.string [], ts) := rfl
  have hclose : lexChar (.string s.toList.reverse) ts '"' = some (.between, .string s :: ts) := by
    simp [lexChar]
  rw [Text.quote, String.toList_ofList, List.cons_append, List.cons_append, lexAll_cons hopen,
    List.append_assoc, lexAll_flatMap_escapeChar, List.append_nil]
  exact lexAll_cons hclose rest

/-! ### Values -/

theorem isBare_of_mem_numeralChars : ∀ c ∈ numeralChars, IsBare c :=
  forall_mem_of_all (by decide)

theorem isBare_integer (n : Int) : ∀ c ∈ integer n, IsBare c := by
  intro c hc
  rw [integer_eq] at hc
  refine isBare_of_mem_numeralChars c ?_
  rcases List.mem_append.1 hc with hc | hc
  · exact Numeral.signText_subset _ hc
  · exact Numeral.text_subset (proper_integerNumeral n) hc

theorem number_ne_nil (x : Double) : number x ≠ [] := by
  cases x with
  | nan => decide
  | infinity negative => cases negative <;> decide
  | finite negative a =>
    obtain ⟨c, cs, htext, -⟩ := Numeral.exists_text_eq_cons (proper_magnitudeNumeral a)
    rw [number_finite, htext]
    simp

theorem isBare_number (x : Double) : ∀ c ∈ number x, IsBare c := by
  cases x with
  | nan => exact forall_mem_of_all (by decide)
  | infinity negative => cases negative <;> exact forall_mem_of_all (by decide)
  | finite negative a =>
    intro c hc
    rw [number_finite] at hc
    refine isBare_of_mem_numeralChars c ?_
    rcases List.mem_append.1 hc with hc | hc
    · exact Numeral.signText_subset _ hc
    · exact Numeral.text_subset (proper_magnitudeNumeral a) hc

theorem lexAll_lineBreak (style : Style) (depth : Nat) {ts : List Token} (rest : List Char) :
    lexAll .between ts (style.lineBreak depth ++ rest) = lexAll .between ts rest := by
  refine lexAll_blanks ?_ rest
  cases style with
  | compact => simp [Style.lineBreak]
  | indented => simp [Style.lineBreak, isBlank]

theorem lexAll_colon (style : Style) {ts : List Token} (rest : List Char) :
    lexAll .between ts (style.colon ++ rest) = lexAll .between (.colon :: ts) rest := by
  cases style with
  | compact => rfl
  | indented => rfl

theorem closed_cons {c : Char} (hc : ¬IsBare c) (rest : List Char) : Closed (c :: rest) := by
  intro d hd
  obtain rfl : c = d := by simpa using hd
  exact hc

theorem closed_lineBreak (style : Style) (depth : Nat) {rest : List Char} (h : Closed rest) :
    Closed (style.lineBreak depth ++ rest) := by
  cases style with
  | compact => exact h
  | indented => exact closed_cons (by decide) _

theorem closed_writeItems (style : Style) (depth : Nat) (vs : List Json) {rest : List Char}
    (h : Closed rest) : Closed (writeItems style depth vs ++ rest) := by
  cases vs with
  | nil => simpa [writeItems] using h
  | cons v vs =>
    rw [writeItems]
    exact closed_cons (by decide) _

theorem closed_writeFields (style : Style) (depth : Nat) (fields : List (String × Json))
    {rest : List Char} (h : Closed rest) : Closed (writeFields style depth fields ++ rest) := by
  cases fields with
  | nil => simpa [writeFields] using h
  | cons f fields =>
    rw [writeFields]
    exact closed_cons (by decide) _

mutual

/-- **Writing and splitting.**  The text of a value splits into the tokens of the value. -/
theorem lexAll_writeAt (style : Style) (depth : Nat) {ts : List Token} {rest : List Char}
    (hrest : Closed rest) : (v : Json) →
    lexAll .between ts (writeAt style depth v ++ rest) =
      lexAll .between ((tokens v).reverse ++ ts) rest
  | null => by
    rw [writeAt, tokens]
    exact lexAll_word (by decide) (forall_mem_of_all (by decide)) hrest
  | bool b => by
    rw [writeAt, tokens]
    cases b with
    | true => exact lexAll_word (by decide) (forall_mem_of_all (by decide)) hrest
    | false => exact lexAll_word (by decide) (forall_mem_of_all (by decide)) hrest
  | int n => by
    have hne : integer n ≠ [] := by simp [integer, Nat.toDigits_ne_nil]
    rw [writeAt, tokens]
    exact lexAll_word hne (isBare_integer n) hrest
  | float x => by
    have hne : number x ≠ [] := number_ne_nil x
    rw [writeAt, tokens]
    exact lexAll_word hne (isBare_number x) hrest
  | string s => by
    rw [writeAt, tokens]
    exact lexAll_quote s rest
  | array [] => by
    rw [writeAt, tokens]
    rfl
  | array (v :: vs) => by
    have hclose : Closed (style.lineBreak depth ++ ']' :: rest) :=
      closed_lineBreak style depth (closed_cons (by decide) rest)
    rw [writeAt, tokens]
    simp only [List.cons_append, List.append_assoc, List.nil_append]
    rw [lexAll_mark rfl, lexAll_lineBreak,
      lexAll_writeAt style (depth + 1) (closed_writeItems style (depth + 1) vs hclose) v,
      lexAll_writeItems style (depth + 1) hclose vs, lexAll_lineBreak, lexAll_mark rfl]
    simp
  | object [] => by
    rw [writeAt, tokens]
    rfl
  | object ((k, v) :: fields) => by
    have hclose : Closed (style.lineBreak depth ++ '}' :: rest) :=
      closed_lineBreak style depth (closed_cons (by decide) rest)
    rw [writeAt, tokens]
    simp only [List.cons_append, List.append_assoc, List.nil_append]
    rw [lexAll_mark rfl, lexAll_lineBreak, lexAll_quote, lexAll_colon,
      lexAll_writeAt style (depth + 1) (closed_writeFields style (depth + 1) fields hclose) v,
      lexAll_writeFields style (depth + 1) hclose fields, lexAll_lineBreak, lexAll_mark rfl]
    simp

theorem lexAll_writeItems (style : Style) (depth : Nat) {ts : List Token} {rest : List Char}
    (hrest : Closed rest) : (vs : List Json) →
    lexAll .between ts (writeItems style depth vs ++ rest) =
      lexAll .between ((itemTokens vs).reverse ++ ts) rest
  | [] => by
    rw [writeItems, itemTokens]
    rfl
  | v :: vs => by
    rw [writeItems, itemTokens]
    simp only [List.cons_append, List.append_assoc]
    rw [lexAll_mark rfl, lexAll_lineBreak,
      lexAll_writeAt style depth (closed_writeItems style depth vs hrest) v,
      lexAll_writeItems style depth hrest vs]
    simp

theorem lexAll_writeFields (style : Style) (depth : Nat) {ts : List Token} {rest : List Char}
    (hrest : Closed rest) : (fields : List (String × Json)) →
    lexAll .between ts (writeFields style depth fields ++ rest) =
      lexAll .between ((fieldTokens fields).reverse ++ ts) rest
  | [] => by
    rw [writeFields, fieldTokens]
    rfl
  | (k, v) :: fields => by
    rw [writeFields, fieldTokens]
    simp only [List.cons_append, List.append_assoc]
    rw [lexAll_mark rfl, lexAll_lineBreak, lexAll_quote, lexAll_colon,
      lexAll_writeAt style depth (closed_writeFields style depth fields hrest) v,
      lexAll_writeFields style depth hrest fields]
    simp

end

/-- The text of a value splits into the tokens of the value. -/
theorem tokens?_write (style : Style) (v : Json) :
    tokens? (writeAt style 0 v) = some (tokens v) := by
  have hclosed : Closed [] := by simp [Closed]
  have h : lexAll .between [] (writeAt style 0 v ++ []) = _ := lexAll_writeAt style 0 hclosed v
  rw [List.append_nil, List.append_nil] at h
  rw [tokens?, h, lexAll, List.reverse_reverse]

/-! ### Reading tokens -/

mutual

/-- A value can be read inside a number of containers. -/
def fits (opened : Nat) : Json → Bool
  | null | bool _ | float _ | string _ => opened ≤ maxOpen
  | int n => opened ≤ maxOpen && Decimal.digitCount n.natAbs ≤ maxIntegerDigits
  | array items => opened ≤ maxOpen && fitsAll (opened + 1) items
  | object fields => opened ≤ maxOpen && fitsFields (opened + 1) fields

/-- Items can be read. -/
def fitsAll (opened : Nat) : List Json → Bool
  | [] => true
  | v :: vs => fits opened v && fitsAll opened vs

/-- Fields can be read. -/
def fitsFields (opened : Nat) : List (String × Json) → Bool
  | [] => true
  | (_, v) :: fields => fits opened v && fitsFields opened fields

end

theorem readAll_cons (r : Reading) (t : Token) (ts : List Token) :
    readAll r (t :: ts) = (readToken r t).bind fun r => readAll r ts := by
  rw [readAll]
  cases readToken r t with
  | none => rfl
  | some r => rfl

theorem not_fits {opened : Nat} (h : maxOpen < opened) (v : Json) : fits opened v = false := by
  cases v <;> simp [fits, Nat.not_le.2 h]

/-- What a reader gives that has read a value, if it can read it. -/
def afterValue (frames : List Frame) (v : Json) (rest : List Token) : Option Json :=
  if fits frames.length v then (deliver v frames).bind fun r => readAll r rest else none

theorem readAll_scalar {r : Reading} {frames : List Frame} {t : Token} {v : Json}
    (hr : ∀ t, t ≠ .closeArray → readToken r t = readValue frames t) (ht : t ≠ .closeArray)
    (hvalue : readValue frames t = if fits frames.length v then deliver v frames else none)
    (rest : List Token) : readAll r ([t] ++ rest) = afterValue frames v rest := by
  rw [List.singleton_append, readAll_cons, hr t ht, hvalue, afterValue]
  split <;> rfl

theorem readValue_bare (frames : List Frame) (cs : List Char) :
    readValue frames (.bare cs) =
      if frames.length ≤ maxOpen then (bare? cs).bind (deliver · frames) else none := by
  by_cases h : frames.length ≤ maxOpen
  · simp [readValue, h, Nat.not_lt.2 h]
  · simp [readValue, h, Nat.not_le.1 h]

/-- A key and its value, once the value is known to be read. -/
theorem readAll_field {r : Reading} {frames : List Frame} {done : List (String × Json)} {k : String}
    {v : Json} {more : List Token}
    (hr : readToken r (.string k) = readKey (.object done none :: frames) (.string k))
    (hv : readAll ⟨.value, .object done (some k) :: frames⟩ (tokens v ++ more) =
      afterValue (.object done (some k) :: frames) v more) :
    readAll r (.string k :: .colon :: (tokens v ++ more)) =
      if fits (frames.length + 1) v then
        readAll ⟨.commaOrEnd, .object ((k, v) :: done) none :: frames⟩ more
      else none := by
  by_cases h : maxOpen < frames.length + 1
  · rw [readAll_cons, hr]
    simp [readKey, h, not_fits h]
  · have hkey : readKey (.object done none :: frames) (.string k) =
        some ⟨.colon, .object done (some k) :: frames⟩ := by
      simp [readKey, h]
    have hcolon : readToken ⟨.colon, .object done (some k) :: frames⟩ .colon =
        some ⟨.value, .object done (some k) :: frames⟩ := rfl
    rw [readAll_cons, hr, hkey, Option.bind_some, readAll_cons, hcolon, Option.bind_some, hv,
      afterValue, List.length_cons]
    simp [deliver]

mutual

/-- **Reading the tokens of a value** gives the value, if it is not too deep and no integer in it is
too long. -/
theorem readAll_tokens {r : Reading} {frames : List Frame} {rest : List Token}
    (hr : ∀ t, t ≠ .closeArray → readToken r t = readValue frames t) : (v : Json) →
    readAll r (tokens v ++ rest) = afterValue frames v rest
  | null => by
    rw [tokens]
    refine readAll_scalar hr (by simp) ?_ rest
    rw [readValue_bare, show bare? "null".toList = some .null from rfl]
    simp [fits]
  | bool b => by
    rw [tokens]
    refine readAll_scalar hr (by simp) ?_ rest
    have hbare : bare? (if b then "true" else "false").toList = some (.bool b) := by
      cases b <;> rfl
    rw [readValue_bare, hbare]
    simp [fits]
  | int n => by
    rw [tokens]
    refine readAll_scalar hr (by simp) ?_ rest
    rw [readValue_bare, bare?_integer]
    by_cases h : Decimal.digitCount n.natAbs ≤ maxIntegerDigits
    · simp [fits, h]
    · simp [fits, h]
  | float x => by
    rw [tokens]
    refine readAll_scalar hr (by simp) ?_ rest
    rw [readValue_bare, bare?_number]
    simp [fits]
  | string s => by
    rw [tokens]
    refine readAll_scalar hr (by simp) ?_ rest
    by_cases h : frames.length ≤ maxOpen
    · simp [readValue, fits, h, Nat.not_lt.2 h]
    · simp [readValue, fits, h, Nat.not_le.1 h]
  | array [] => by
    rw [tokens, List.cons_append, readAll_cons, hr _ (by simp), afterValue]
    by_cases h : frames.length ≤ maxOpen
    · simp [readValue, fits, fitsAll, h, Nat.not_lt.2 h, readAll_cons, readToken]
    · simp [readValue, fits, h, Nat.not_le.1 h]
  | array (v :: vs) => by
    have hitem : ∀ t, t ≠ .closeArray →
        readToken ⟨.valueOrEnd, .array [] :: frames⟩ t = readValue (.array [] :: frames) t := by
      intro t ht
      cases t <;> first | rfl | exact absurd rfl ht
    rw [tokens]
    simp only [List.cons_append, List.append_assoc, List.nil_append]
    rw [readAll_cons, hr _ (by simp), afterValue]
    by_cases h : frames.length ≤ maxOpen
    · have hopen : readValue frames .openArray = some ⟨.valueOrEnd, .array [] :: frames⟩ := by
        simp [readValue, Nat.not_lt.2 h]
      rw [hopen, Option.bind_some, readAll_tokens hitem v, afterValue, List.length_cons]
      by_cases hv : fits (frames.length + 1) v
      · simp [hv, fits, fitsAll, h, deliver, readAll_itemTokens vs]
      · simp [hv, fits, fitsAll]
    · simp [readValue, fits, h, Nat.not_le.1 h]
  | object [] => by
    rw [tokens, List.cons_append, readAll_cons, hr _ (by simp), afterValue]
    by_cases h : frames.length ≤ maxOpen
    · simp [readValue, fits, fitsFields, h, Nat.not_lt.2 h, readAll_cons, readToken]
    · simp [readValue, fits, h, Nat.not_le.1 h]
  | object ((k, v) :: fields) => by
    rw [tokens]
    simp only [List.cons_append, List.append_assoc, List.nil_append]
    rw [readAll_cons, hr _ (by simp), afterValue]
    by_cases h : frames.length ≤ maxOpen
    · have hopen : readValue frames .openObject = some ⟨.keyOrEnd, .object [] none :: frames⟩ := by
        simp [readValue, Nat.not_lt.2 h]
      have hkey : readToken ⟨.keyOrEnd, .object [] none :: frames⟩ (.string k) =
          readKey (.object [] none :: frames) (.string k) := rfl
      rw [hopen, Option.bind_some, readAll_field hkey (readAll_tokens (fun _ _ => rfl) v),
        readAll_fieldTokens fields]
      by_cases hv : fits (frames.length + 1) v
      · simp [hv, fits, fitsFields, h]
      · simp [hv, fits, fitsFields]
    · simp [readValue, fits, h, Nat.not_le.1 h]

theorem readAll_itemTokens {frames : List Frame} {items : List Json} {rest : List Token} :
    (vs : List Json) →
    readAll ⟨.commaOrEnd, .array items :: frames⟩ (itemTokens vs ++ .closeArray :: rest) =
      if fitsAll (frames.length + 1) vs then
        (deliver (.array (items.reverse ++ vs)) frames).bind fun r => readAll r rest
      else none
  | [] => by
    rw [itemTokens, List.nil_append, readAll_cons]
    simp [readToken, fitsAll]
  | v :: vs => by
    have hitem : ∀ t, t ≠ .closeArray →
        readToken ⟨.value, .array items :: frames⟩ t = readValue (.array items :: frames) t :=
      fun _ _ => rfl
    have hcomma : readToken ⟨.commaOrEnd, .array items :: frames⟩ .comma =
        some ⟨.value, .array items :: frames⟩ := rfl
    rw [itemTokens, List.cons_append, List.cons_append, readAll_cons, hcomma, Option.bind_some,
      List.append_assoc, readAll_tokens hitem v, afterValue, List.length_cons]
    by_cases hv : fits (frames.length + 1) v
    · simp [hv, fitsAll, deliver, readAll_itemTokens vs]
    · simp [hv, fitsAll]

theorem readAll_fieldTokens {frames : List Frame} {done : List (String × Json)}
    {rest : List Token} : (fields : List (String × Json)) →
    readAll ⟨.commaOrEnd, .object done none :: frames⟩
        (fieldTokens fields ++ .closeObject :: rest) =
      if fitsFields (frames.length + 1) fields then
        (deliver (.object (done.reverse ++ fields)) frames).bind fun r => readAll r rest
      else none
  | [] => by
    rw [fieldTokens, List.nil_append, readAll_cons]
    simp [readToken, fitsFields]
  | (k, v) :: fields => by
    have hcomma : readToken ⟨.commaOrEnd, .object done none :: frames⟩ .comma =
        some ⟨.key, .object done none :: frames⟩ := rfl
    rw [fieldTokens]
    simp only [List.cons_append, List.append_assoc]
    rw [readAll_cons, hcomma, Option.bind_some,
      readAll_field rfl (readAll_tokens (fun _ _ => rfl) v), readAll_fieldTokens fields]
    by_cases hv : fits (frames.length + 1) v
    · simp [hv, fitsFields]
    · simp [hv, fitsFields]

end

/-- **Round trip.**  The text of a value, in either style, is read as the value, unless it is too
deep or holds an integer that is too long. -/
theorem parse?_write (style : Style) (v : Json) :
    parse? (v.write style) = if fits 0 v then some v else none := by
  have hread : readAll ⟨.value, []⟩ (tokens v ++ []) = afterValue [] v [] :=
    readAll_tokens (fun _ _ => rfl) v
  rw [List.append_nil] at hread
  rw [parse?, write, String.toList_ofList, tokens?_write]
  simp [hread, afterValue, deliver, readAll]

end StackScript.Json
