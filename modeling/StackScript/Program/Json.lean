import StackScript.Json.Reader
import StackScript.Program
import StackScript.Text.Blank

/-!
# Programs as JSON

A program is written as an object with its name, code and constants; a constant as an object with
its kind and value.  Numbers that JSON cannot write are written by name, as strings.

`Program.ofJson` reads such an object back.  It is lenient about code words and about fields that
are absent, and complains about every field that it cannot take.
-/

namespace StackScript

/-! ### Writing -/

/-- The value of a number constant in JSON. -/
def Double.toJson : Double → Json
  | .finite s a => .float (.finite s a)
  | x => .string (String.ofList (Json.number x))

/-- A constant in JSON. -/
def Constant.toJson (c : Constant) : Json :=
  let value := match c with
    | .number x => x.toJson
    | .boolean b => .bool b
    | .string s => .string s
  .object [("tag", .string c.kind.name), ("value", value)]

/-- A program in JSON. -/
def Program.toJson (p : Program) : Json :=
  .object [("name", .string p.name), ("code", .array (p.code.map .int)),
    ("constants", .array (p.constants.map Constant.toJson))]

/-- Operation counts in JSON. -/
def Program.countsToJson (counts : List (Opcode × Nat)) : Json :=
  .object (counts.map fun (op, n) => (op.name, .int n))

/-! ### Complaints -/

/-- A step on the way to a value inside a document. -/
inductive Step where
  | key (name : String)
  | index (i : Nat)
deriving DecidableEq, Repr

/-- Why a value of a document is not taken. -/
inductive Objection where
  | notJson
  | notObject
  | notString
  | notArray
  | notInteger
  | fractional
  | notFinite
  | badInteger
  /-- An integer that is too long, or a number that is too far from zero to be taken for one. -/
  | vastInteger
  | absent
  | unknownTag
  | notBoolean
  | notNumber
  /-- The value fits no constant of the kind that the tag tells. -/
  | wrongPayload (tag : ConstantKind) (found : String)
  /-- A text that holds surrogates. -/
  | unpairedSurrogate
deriving DecidableEq, Repr

/-- What a constant of a kind has to hold. -/
def ConstantKind.payload : ConstantKind → String
  | .number => "float"
  | .boolean => "bool"
  | .string => "str"

namespace Objection

/-- The word that tells the objection. -/
def code : Objection → String
  | notJson => "json_invalid"
  | notObject => "model_type"
  | notString => "string_type"
  | notArray => "tuple_type"
  | notInteger => "int_type"
  | fractional => "int_from_float"
  | notFinite => "finite_number"
  | badInteger => "int_parsing"
  | vastInteger => "int_parsing_size"
  | absent => "missing"
  | unknownTag => "enum"
  | notBoolean => "bool_type"
  | notNumber => "float_type"
  | wrongPayload .. | unpairedSurrogate => "value_error"

/-- The wording, where the word does not say all. -/
def detail? : Objection → Option String
  | wrongPayload tag found =>
    some s!"Value error, {tag.name} value expects {tag.payload}, got {found}"
  | unpairedSurrogate => some "Value error, string value contains an unpaired surrogate"
  | _ => none

end Objection

/-- An objection and where it arises. -/
structure Complaint where
  objection : Objection
  path : List Step
deriving DecidableEq, Repr

/-- A value, or everything that is wrong with it. -/
abbrev Validated (β : Type) := Except (List Complaint) β

/-- Complain about one value. -/
def complain {β : Type} (path : List Step) (o : Objection) : Validated β := .error [⟨o, path⟩]

/-- Both values, or the complaints about both. -/
def Validated.both {β γ : Type} : Validated β → Validated γ → Validated (β × γ)
  | .ok b, .ok c => .ok (b, c)
  | .error es, .ok _ => .error es
  | .ok _, .error fs => .error fs
  | .error es, .error fs => .error (es ++ fs)

/-- All items, each read with its index, or the complaints about all of them. -/
def validateAll {β : Type} (read : Nat → Json → Validated β) : Nat → List Json → Validated (List β)
  | _, [] => .ok []
  | i, v :: vs =>
    match (read i v).both (validateAll read (i + 1) vs) with
    | .ok (b, bs) => .ok (b :: bs)
    | .error es => .error es

/-! ### Reading -/

/-- An integer as JSON writes it.  Too many digits are told apart, whatever follows them. -/
def plainInteger (cs : List Char) : Except Objection Int :=
  let (negative, unsigned) := Json.splitMinus cs
  let digits := unsigned.takeWhile Char.isDigit
  if digits.head? = some '0' then if unsigned = ['0'] then .ok 0 else .error .badInteger
  else if Json.maxIntegerDigits < digits.length then .error .vastInteger
  else if digits.isEmpty ∨ digits ≠ unsigned then .error .badInteger
  else
    let n : Int := Text.ofDigits 10 (digits.filterMap Text.asciiDigit?)
    .ok (if negative then -n else n)

/-- Drop zeros before a number, with underscores among them.  The last zero stays if no other digit
follows.  A number with a minus sign is left as it is. -/
def dropZeros? (cs : List Char) : Option (List Char) :=
  match cs with
  | '0' :: rest =>
    let isZero (c : Char) : Bool := c == '0' || c == '_'
    match rest.dropWhile isZero with
    | [] => some [(cs.getLast?).getD '0']
    | '.' :: fraction => some (((rest.takeWhile isZero).getLast?.getD '0') :: '.' :: fraction)
    | d :: more => if d.isDigit then some (d :: more) else none
  | c :: _ => if c.isDigit || c == '-' then some cs else none
  | [] => none

/-- Drop a fraction of zeros. -/
def dropFraction (cs : List Char) : List Char :=
  match cs.dropWhile (· ≠ '.') with
  | '.' :: '0' :: zeros => if zeros.all (· == '0') then cs.takeWhile (· ≠ '.') else cs
  | _ => cs

/-- Drop underscores, unless one stands at an end or beside another. -/
def dropUnderscores (cs : List Char) : List Char :=
  let doubled := (cs.zip cs.tail).any fun (a, b) => a == '_' && b == '_'
  if cs.head? == some '_' || cs.getLast? == some '_' || doubled then cs else cs.filter (· ≠ '_')

/-- An integer without blanks around it, a plus sign, needless zeros and underscores. -/
def tidyInteger? (cs : List Char) : Option (List Char) := do
  let unsigned ← match Text.trimBy Text.isWhiteSpace cs with
    | '+' :: '-' :: _ => none
    | '+' :: rest => some rest
    | rest => some rest
  return dropUnderscores (dropFraction (← dropZeros? unsigned))

/-- An integer in a string: as JSON writes it, or so once it is tidied up. -/
def integerText (s : String) : Except Objection Int :=
  match plainInteger s.toList, tidyInteger? s.toList with
  | .error .badInteger, some tidy => plainInteger tidy
  | result, _ => result

/-- A whole number as an integer, if it lies strictly between the bounds of sixty-four bits. -/
def wholeNumber (x : Double) : Except Objection Int :=
  match x, x.toInt? with
  | _, some n => if n.natAbs < Nat.pow 2 63 then .ok n else .error .vastInteger
  | .finite .., none => .error .fractional
  | _, none => .error .notFinite

/-- A code word: an integer, or what stands for one without loss. -/
def codeWord (path : List Step) : Json → Validated Int
  | .int n => .ok n
  | .bool b => .ok (if b then 1 else 0)
  | .float x => judge (wholeNumber x)
  | .string s => judge (integerText s)
  | _ => complain path .notInteger
where
  /-- Complain about what is no integer. -/
  judge : Except Objection Int → Validated Int
    | .ok n => .ok n
    | .error o => complain path o

/-- The value of a constant before its kind is looked at. -/
inductive Payload where
  | bool (b : Bool)
  | float (x : Double)
  | str (s : String)

/-- The word for the type of a value. -/
def Payload.typeName : Payload → String
  | bool _ => "bool"
  | float _ => "float"
  | str _ => "str"

/-- The kind told by a tag. -/
def tagOf (path : List Step) : Option Json → Validated ConstantKind
  | none => complain path .absent
  | some (.string s) =>
    match ConstantKind.ofName? s with
    | some k => .ok k
    | none => complain path .unknownTag
  | some _ => complain path .unknownTag

/-- A truth value, number or text; integers count as numbers if they are not too large. -/
def payloadOf (path : List Step) : Option Json → Validated Payload
  | none => complain path .absent
  | some (.bool b) => .ok (.bool b)
  | some (.float x) => .ok (.float x)
  | some (.string s) => .ok (.str s)
  | some (.int n) =>
    match Double.ofInt? n with
    | some x => .ok (.float x)
    | none => unfit
  | some _ => unfit
where
  /-- None of the three types fits. -/
  unfit : Validated Payload :=
    .error [⟨.notBoolean, path ++ [.key "bool"]⟩, ⟨.notNumber, path ++ [.key "float"]⟩,
      ⟨.notString, path ++ [.key "str"]⟩]

/-- The names of the numbers that JSON cannot write. -/
def namedNumber? : String → Option Double
  | "Infinity" => some (.infinity false)
  | "-Infinity" => some (.infinity true)
  | "NaN" => some .nan
  | _ => none

/-- The value that stands for a number by name, if the tag says number. -/
def resolveName (tag value : Option Json) : Option Json :=
  match tag, value with
  | some (.string "number"), some (.string s) =>
    match namedNumber? s with
    | some x => some (.float x)
    | none => value
  | _, _ => value

/-- Read a constant. -/
def Constant.ofJson (path : List Step) : Json → Validated Constant
  | .object fields => do
    let tag := Json.field? fields "tag"
    let value := resolveName tag (Json.field? fields "value")
    let (kind, payload) ←
      (tagOf (path ++ [.key "tag"]) tag).both (payloadOf (path ++ [.key "value"]) value)
    match kind, payload with
    | .number, .float x => return .number x
    | .boolean, .bool b => return .boolean b
    | .string, .str s => return .string s
    | kind, payload => complain path (.wrongPayload kind payload.typeName)
  | _ => complain path .notObject

/-- Read the items of an array field; an absent field has none. -/
def arrayField {β : Type} (fields : List (String × Json)) (key : String)
    (read : List Step → Json → Validated β) : Validated (List β) :=
  match Json.field? fields key with
  | none => .ok []
  | some (.array items) => validateAll (fun i => read [.key key, .index i]) 0 items
  | some _ => complain [.key key] .notArray

/-- Read the name; a program without one has the standard name. -/
def nameField (fields : List (String × Json)) : Validated String :=
  match Json.field? fields "name" with
  | none => .ok "main"
  | some (.string s) => .ok s
  | some _ => complain [.key "name"] .notString

/-- Read a program. -/
def Program.ofJson : Json → Validated Program
  | .object fields => do
    let (name, code, constants) ← (nameField fields).both
      ((arrayField fields "code" codeWord).both (arrayField fields "constants" Constant.ofJson))
    return ⟨name, code, constants⟩
  | _ => complain [] .notObject

/-- Read a text that holds one document. -/
def readDocument {β : Type} (read : Json → Validated β) (text : String) : Validated β :=
  match Json.parse? text with
  | some v => read v
  | none => complain [] .notJson

/-- Read the text of a program. -/
def Program.parse (text : String) : Validated Program := readDocument Program.ofJson text

/-- Read the text of a constant. -/
def Constant.parse (text : String) : Validated Constant := readDocument (Constant.ofJson []) text

/-- A constant with a text of code points, none of them a surrogate. -/
def Constant.ofText (ps : List CodePoint) : Validated Constant :=
  match Constant.ofCodePoints? ps with
  | some c => .ok c
  | none => complain [] .unpairedSurrogate

end StackScript
