import StackScript.Json
import StackScript.Json.Token
import StackScript.Literal.Number

/-!
# Reading JSON

`Json.parse?` reads a whole text.  The containers that are still open are kept on a stack, so that
reading is one pass over the tokens.  Nothing may stand inside more than `maxOpen` containers, and
an integer has at most `maxIntegerDigits` digits.
-/

namespace StackScript.Json

/-- How many containers a value or a key may stand in. -/
def maxOpen : Nat := 200

/-- How many digits the integer part of a number may have. -/
def maxIntegerDigits : Nat := 4300

/-- An open container; its items stand in reverse.  An object keeps the key whose value is being
read. -/
inductive Frame where
  | array (items : List Json)
  | object (fields : List (String × Json)) (key : Option String)

/-- What may come next. -/
inductive Expect where
  | value
  /-- Right behind an opening bracket: a value or the closing bracket. -/
  | valueOrEnd
  | key
  /-- Right behind an opening brace: a key or the closing brace. -/
  | keyOrEnd
  | colon
  /-- Behind an item: a comma or the end of the container. -/
  | commaOrEnd
  /-- Nothing: the outermost value is complete. -/
  | finished (v : Json)

/-- The state of reading: what may come next, and the open containers, innermost first. -/
structure Reading where
  expect : Expect
  frames : List Frame

/-- Digits without a needless zero in front. -/
def isWhole : List Char → Bool
  | [] => false
  | ['0'] => true
  | '0' :: _ => false
  | cs => cs.all Char.isDigit

/-- The exponent of a number: a letter, perhaps a sign, and digits. -/
def isExponent : List Char → Bool
  | e :: rest =>
    let (_, ds) := Literal.splitSign rest
    (e == 'e' || e == 'E') && !ds.isEmpty && ds.all Char.isDigit
  | [] => false

/-- Split off a minus sign. -/
def splitMinus : List Char → Bool × List Char
  | '-' :: rest => (true, rest)
  | cs => (false, cs)

/-- A number that follows the grammar. -/
def number? (cs : List Char) : Option Json :=
  let (negative, unsigned) := splitMinus cs
  let whole := unsigned.takeWhile Char.isDigit
  let (fraction, exponent) := Literal.splitFraction (unsigned.dropWhile Char.isDigit)
  if !isWhole whole || fraction == some [] || !(exponent.isEmpty || isExponent exponent) then none
  else if maxIntegerDigits < whole.length then none
  else if fraction.isNone && exponent.isEmpty then
    let n : Int := Text.ofDigits 10 (whole.filterMap Text.asciiDigit?)
    some (.int (if negative then -n else n))
  else (Literal.decimal? cs).map .float

/-- A bare word: a named value or a number. -/
def bare? (cs : List Char) : Option Json :=
  match String.ofList cs with
  | "null" => some .null
  | "true" => some (.bool true)
  | "false" => some (.bool false)
  | "NaN" => some (.float .nan)
  | "Infinity" => some (.float (.infinity false))
  | "-Infinity" => some (.float (.infinity true))
  | _ => number? cs

/-- Hand a complete value to the innermost container. -/
def deliver (v : Json) : List Frame → Option Reading
  | [] => some ⟨.finished v, []⟩
  | .array items :: frames => some ⟨.commaOrEnd, .array (v :: items) :: frames⟩
  | .object fields (some key) :: frames =>
    some ⟨.commaOrEnd, .object ((key, v) :: fields) none :: frames⟩
  | .object _ none :: _ => none

/-- A token where a value has to stand. -/
def readValue (frames : List Frame) (t : Token) : Option Reading :=
  if maxOpen < frames.length then none
  else
    match t with
    | .openArray => some ⟨.valueOrEnd, .array [] :: frames⟩
    | .openObject => some ⟨.keyOrEnd, .object [] none :: frames⟩
    | .string s => deliver (.string s) frames
    | .bare cs => do deliver (← bare? cs) frames
    | _ => none

/-- A token where a key has to stand. -/
def readKey (frames : List Frame) (t : Token) : Option Reading :=
  if maxOpen < frames.length then none
  else
    match frames, t with
    | .object fields _ :: frames, .string s => some ⟨.colon, .object fields (some s) :: frames⟩
    | _, _ => none

/-- One token. -/
def readToken : Reading → Token → Option Reading
  | ⟨.value, frames⟩, t => readValue frames t
  | ⟨.valueOrEnd, .array _ :: frames⟩, .closeArray => deliver (.array []) frames
  | ⟨.valueOrEnd, frames⟩, t => readValue frames t
  | ⟨.key, frames⟩, t => readKey frames t
  | ⟨.keyOrEnd, .object _ _ :: frames⟩, .closeObject => deliver (.object []) frames
  | ⟨.keyOrEnd, frames⟩, t => readKey frames t
  | ⟨.colon, frames⟩, .colon => some ⟨.value, frames⟩
  | ⟨.commaOrEnd, .array items :: frames⟩, .comma => some ⟨.value, .array items :: frames⟩
  | ⟨.commaOrEnd, .object fields key :: frames⟩, .comma =>
    some ⟨.key, .object fields key :: frames⟩
  | ⟨.commaOrEnd, .array items :: frames⟩, .closeArray => deliver (.array items.reverse) frames
  | ⟨.commaOrEnd, .object fields _ :: frames⟩, .closeObject =>
    deliver (.object fields.reverse) frames
  | _, _ => none

/-- All tokens from a state on. -/
def readAll : Reading → List Token → Option Json
  | ⟨.finished v, _⟩, [] => some v
  | _, [] => none
  | r, t :: ts =>
    match readToken r t with
    | some r => readAll r ts
    | none => none

/-- The value of a text. -/
def parse? (text : String) : Option Json := do
  readAll ⟨.value, []⟩ (← tokens? text.toList)

/-- The value of a key; the last of several. -/
def field? (fields : List (String × Json)) (key : String) : Option Json :=
  fields.reverse.lookup key

end StackScript.Json
