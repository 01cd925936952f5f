import StackScript.Text.CodePoint
import StackScript.Text.Digit

/-!
# Tokens of JSON text

`Json.tokens?` splits a text into marks, strings and bare words in one pass over its characters.
Strings come out decoded: an escape of a surrogate has to be followed by the escape of its
partner, and control characters have to be escaped.
-/

namespace StackScript.Json

/-- A token. -/
inductive Token where
  | openArray
  | closeArray
  | openObject
  | closeObject
  | comma
  | colon
  | string (s : String)
  /-- Characters without blanks, marks and quotes: a number or a named value. -/
  | bare (cs : List Char)
deriving DecidableEq, Repr

/-- What the splitter is in the middle of; what is read so far stands in reverse. -/
inductive Lexing where
  | between
  | bare (done : List Char)
  | string (done : List Char)
  /-- Behind a backslash. -/
  | escape (done : List Char)
  /-- Inside four hexadecimal digits: how many are left and the number so far. -/
  | unicode (done : List Char) (left : Nat) (code : Nat)
  /-- Behind a high surrogate, whose partner has to start with a backslash. -/
  | half (done : List Char) (high : Nat)
  /-- Behind a high surrogate and a backslash. -/
  | halfEscape (done : List Char) (high : Nat)
  /-- Inside the digits of a low surrogate. -/
  | halfUnicode (done : List Char) (high : Nat) (left : Nat) (code : Nat)

/-- A mark of the grammar. -/
def mark? : Char → Option Token
  | '[' => some .openArray
  | ']' => some .closeArray
  | '{' => some .openObject
  | '}' => some .closeObject
  | ',' => some .comma
  | ':' => some .colon
  | _ => none

/-- Blanks of the grammar. -/
def isBlank (c : Char) : Bool := c == ' ' || c == '\t' || c == '\n' || c == '\r'

/-- The character of an escape of one letter. -/
def shortEscape? : Char → Option Char
  | '"' => some '"'
  | '\\' => some '\\'
  | '/' => some '/'
  | 'b' => some '\x08'
  | 'f' => some '\x0c'
  | 'n' => some '\n'
  | 'r' => some '\r'
  | 't' => some '\t'
  | _ => none

/-- A character outside strings: the next state and the tokens that it completes, latest first. -/
def outside (tokens : List Token) (c : Char) : Lexing × List Token :=
  if c = '"' then (.string [], tokens)
  else if isBlank c then (.between, tokens)
  else match mark? c with
    | some t => (.between, t :: tokens)
    | none => (.bare [c], tokens)

/-- A number that an escape has completed: a character, or a high surrogate that needs a partner. -/
def escaped (done : List Char) (code : Nat) : Option Lexing :=
  if 0xD800 ≤ code ∧ code < 0xDC00 then some (.half done code)
  else if 0xDC00 ≤ code ∧ code < 0xE000 then none
  else some (.string (Char.ofNat code :: done))

/-- One character: the next state, and the tokens so far, latest first. -/
def lexChar : Lexing → List Token → Char → Option (Lexing × List Token)
  | .between, tokens, c => some (outside tokens c)
  | .bare done, tokens, c =>
    if c = '"' ∨ isBlank c ∨ (mark? c).isSome then
      some (outside (.bare done.reverse :: tokens) c)
    else some (.bare (c :: done), tokens)
  | .string done, tokens, c =>
    if c = '"' then some (.between, .string (String.ofList done.reverse) :: tokens)
    else if c = '\\' then some (.escape done, tokens)
    else if c.toNat < 0x20 then none
    else some (.string (c :: done), tokens)
  | .escape done, tokens, c =>
    if c = 'u' then some (.unicode done 4 0, tokens)
    else (shortEscape? c).map fun d => (.string (d :: done), tokens)
  | .unicode done left code, tokens, c => do
    let d ← Text.hexDigit? c
    let code := 16 * code + d
    if left ≤ 1 then return (← escaped done code, tokens)
    else return (.unicode done (left - 1) code, tokens)
  | .half done high, tokens, c => if c = '\\' then some (.halfEscape done high, tokens) else none
  | .halfEscape done high, tokens, c =>
    if c = 'u' then some (.halfUnicode done high 4 0, tokens) else none
  | .halfUnicode done high left code, tokens, c => do
    let d ← Text.hexDigit? c
    let code := 16 * code + d
    if left ≤ 1 then
      if 0xDC00 ≤ code ∧ code < 0xE000 then
        let joined := 0x10000 + (high - 0xD800) * 0x400 + (code - 0xDC00)
        return (.string (Char.ofNat joined :: done), tokens)
      else none
    else return (.halfUnicode done high (left - 1) code, tokens)

/-- All characters from a state on. -/
def lexAll : Lexing → List Token → List Char → Option (List Token)
  | .between, tokens, [] => some tokens.reverse
  | .bare done, tokens, [] => some (.bare done.reverse :: tokens).reverse
  | _, _, [] => none
  | state, tokens, c :: cs =>
    match lexChar state tokens c with
    | some (state, tokens) => lexAll state tokens cs
    | none => none

/-- The tokens of a text. -/
def tokens? (cs : List Char) : Option (List Token) := lexAll .between [] cs

end StackScript.Json
