import StackScript.Text.Digit
import StackScript.Grammar.LineEnd

/-!
# Tokens of JavaScript

`scan` skips blanks and comments and reads the next token, and notes whether a statement can end
before it.  Whether a slash divides or opens a regular expression, and where a template goes on behind
a hole, is up to the grammar: `Cursor` positions let it read such tokens itself (`regexLength?`,
`templatePart?`).

Positions are `Mark`s: bytes of UTF-8 from the start, the row, and bytes from the start of the row.
-/

namespace StackScript.Grammar

/-! ### Positions -/

/-- A position in the source. -/
structure Mark where
  byte : Nat
  row : Nat
  column : Nat
deriving DecidableEq, Repr

/-- The position behind a character.  Only a line feed starts a new row. -/
def Mark.behind (m : Mark) (c : Char) : Mark :=
  if c = '\n' then ⟨m.byte + c.utf8Size, m.row + 1, 0⟩
  else ⟨m.byte + c.utf8Size, m.row, m.column + c.utf8Size⟩

/-- The source from a position on. -/
structure Cursor where
  rest : List Char
  mark : Mark

/-- The cursor behind so many characters. -/
def Cursor.forward (c : Cursor) (n : Nat) : Cursor :=
  ⟨c.rest.drop n, (c.rest.take n).foldl Mark.behind c.mark⟩

/-! ### Lengths of tokens -/

/-- Length of a braced or four-digit code point behind a backslash. -/
def codePointLength? : List Char → Option Nat
  | 'u' :: '{' :: cs =>
    let n := (cs.takeWhile Text.isHexDigit).length
    if n ≠ 0 ∧ (cs.drop n).head? = some '}' then some (n + 3) else none
  | 'u' :: cs =>
    if (cs.take 4).length = 4 ∧ (cs.take 4).all Text.isHexDigit then some 5 else none
  | _ => none

/-- Length of the rest of a name, the characters of an escape being passed over. -/
def nameLength : Nat → List Char → Nat
  | _, [] => 0
  | skip + 1, _ :: cs => 1 + nameLength skip cs
  | 0, c :: cs =>
    if isNamePart c then 1 + nameLength 0 cs
    else if c = '\\' then
      match codePointLength? cs with
      | some n => 1 + nameLength n cs
      | none => 0
    else 0

/-- Length of the digits behind a first one; a single underscore may stand before a digit. -/
def moreDigits (isDigit : Char → Bool) : List Char → Nat
  | '_' :: d :: cs => if isDigit d then 2 + moreDigits isDigit cs else 0
  | d :: cs => if isDigit d then 1 + moreDigits isDigit cs else 0
  | [] => 0

/-- Length of digits with separators; zero if there is no digit. -/
def digitsLength (isDigit : Char → Bool) : List Char → Nat
  | d :: cs => if isDigit d then 1 + moreDigits isDigit cs else 0
  | [] => 0

/-- Length of an exponent; zero if there is none. -/
def exponentLength : List Char → Nat
  | e :: cs =>
    if e = 'e' ∨ e = 'E' then
      let sign := match cs with
        | '+' :: _ | '-' :: _ => 1
        | _ => 0
      let n := digitsLength Char.isDigit (cs.drop sign)
      if n = 0 then 0 else 1 + sign + n
    else 0
  | [] => 0

/-- Length of a fraction that starts with a point, and of the exponent behind it. -/
def fractionLength (cs : List Char) : Nat :=
  let n := 1 + digitsLength Char.isDigit (cs.drop 1)
  n + exponentLength (cs.drop n)

/-- Digits that a fraction or an exponent may follow: a zero, or a number that starts with another
digit, perhaps behind one zero. -/
def takesFraction : List Char → Bool
  | ['0'] => true
  | '0' :: d :: _ => d.isDigit && d ≠ '0'
  | _ => true

/-- One if an integer is marked as unbounded. -/
def bigintMark (cs : List Char) : Nat := if cs.head? = some 'n' then 1 else 0

/-- Length of a decimal number that starts with a digit. -/
def decimalLength (cs : List Char) : Nat :=
  let n := digitsLength Char.isDigit cs
  let rest := cs.drop n
  if takesFraction (cs.take n) && rest.head? == some '.' then n + fractionLength rest
  else if takesFraction (cs.take n) && exponentLength rest ≠ 0 then n + exponentLength rest
  else n + bigintMark rest

/-- Length of an integer behind the mark of its base; none if no digit follows. -/
def markedLength? (isDigit : Char → Bool) (cs : List Char) : Option Nat :=
  let n := digitsLength isDigit (cs.drop 2)
  if n = 0 then none else some (2 + n + bigintMark (cs.drop (2 + n)))

/-- Length of a number. -/
def numberLength (cs : List Char) : Nat :=
  let marked := match cs with
    | '0' :: m :: _ =>
      if m = 'x' ∨ m = 'X' then markedLength? Text.isHexDigit cs
      else if m = 'o' ∨ m = 'O' then markedLength? Text.isOctalDigit cs
      else if m = 'b' ∨ m = 'B' then markedLength? (fun c => c == '0' || c == '1') cs
      else none
    | _ => none
  marked.getD (if cs.head? = some '.' then fractionLength cs else decimalLength cs)

/-- Length of an escape behind its backslash; none if it is malformed. -/
def escapeLength? : List Char → Option Nat
  | [] => none
  | 'u' :: cs => codePointLength? ('u' :: cs)
  | 'x' :: cs =>
    if (cs.take 2).length = 2 ∧ (cs.take 2).all Text.isHexDigit then some 3 else none
  | '\r' :: '\n' :: _ | '?' :: '\n' :: _ => some 2
  | _ => some 1

/-- Where the text of a string stands. -/
inductive StringPlace where
  | text
  /-- Inside an escape: how many characters are left of it. -/
  | escape (left : Nat)
  /-- Behind the end of a line, where only the closing quote or a comment can follow. -/
  | gap
  | lineComment
  | blockComment

/-- A character of the text of a string: where the next one stands; none if the string is closed or
malformed by it. -/
def StringPlace.pass (cs : List Char) (c : Char) : Option StringPlace :=
  if c = '\\' then (escapeLength? cs).map .escape
  else if c = '\n' ∨ c = '\r' then some .gap
  else some .text

/-- Length of the rest of a string with its closing quote; none if it is malformed.  Lines may end
before the closing quote, and before comments that stand in the string. -/
def stringLength? (quote : Char) : StringPlace → List Char → Option Nat
  | _, [] => none
  | .text, c :: cs =>
    if c = quote then some 1
    else match StringPlace.pass cs c with
      | some place => (stringLength? quote place cs).map (1 + ·)
      | none => none
  | .escape (n + 1), _ :: cs =>
    (stringLength? quote (if n = 0 then .text else .escape n) cs).map (1 + ·)
  | .escape 0, _ => none
  | .gap, '/' :: '/' :: cs => (stringLength? quote .lineComment cs).map (2 + ·)
  | .gap, '/' :: '*' :: cs => (stringLength? quote .blockComment cs).map (2 + ·)
  | .gap, c :: cs =>
    if c = quote then some 1
    else if isBlank c then (stringLength? quote .gap cs).map (1 + ·)
    else none
  | .lineComment, c :: cs =>
    let next : StringPlace :=
      if c = '\n' ∨ c = '\r' then .gap else if endsLine c then .text else .lineComment
    (stringLength? quote next cs).map (1 + ·)
  | .blockComment, '*' :: '/' :: cs => (stringLength? quote .text cs).map (2 + ·)
  | .blockComment, _ :: cs => (stringLength? quote .blockComment cs).map (1 + ·)

/-- Length of the rest of a regular expression up to its closing slash, that included; inside a
class a slash does not close it. -/
def regexBody? (inClass : Bool) : List Char → Option Nat
  | [] => none
  | '\\' :: c :: cs => if c = '\n' then none else (regexBody? inClass cs).map (2 + ·)
  | c :: cs =>
    if c = '\n' then none
    else if c = '/' ∧ !inClass then some 1
    else (regexBody? (if c = '[' then true else if c = ']' then false else inClass) cs).map (1 + ·)

/-- Flags of a regular expression. -/
def isFlag (c : Char) : Bool := 'a' ≤ c && c ≤ 'z'

/-- The text behind flags that stand right behind a comment, with any blanks and comments before
that one. -/
def behindRemarkedFlags? : Nat → List Char → Option (List Char)
  | 0, _ => none
  | n + 1, cs => (behindComment? cs).bind fun rest =>
    if startsWith isFlag rest then some (rest.dropWhile isFlag) else behindRemarkedFlags? n rest

/-- Length of a regular expression with its flags, from its opening slash on.  Flags may stand
behind a comment, unless the statement ends before it. -/
def regexLength? (limit : Nat) (ending : Bool) (cs : List Char) : Option Nat := do
  let body ← regexBody? false (cs.drop 1)
  let rest := cs.drop (1 + body)
  let flags := (rest.takeWhile isFlag).length
  if flags ≠ 0 ∨ (ending ∧ (insertion? false limit limit rest).isSome) then return 1 + body + flags
  match behindRemarkedFlags? limit rest with
  | some behind => return 1 + body + (rest.length - behind.length)
  | none => return 1 + body

/-- Length of template text up to its end, that included, and whether it ends at a hole. -/
def templatePart? : Nat → List Char → Option (Nat × Bool)
  | _, [] => none
  | skip + 1, _ :: cs => (templatePart? skip cs).map fun (n, hole) => (1 + n, hole)
  | 0, c :: cs =>
    if c = '`' then some (1, false)
    else if c = '$' ∧ cs.head? = some '{' then some (2, true)
    else if c = '\\' then
      match escapeLength? cs with
      | some n => (templatePart? n cs).map fun (n, hole) => (1 + n, hole)
      | none => none
    else (templatePart? 0 cs).map fun (n, hole) => (1 + n, hole)

/-! ### Tokens -/

/-- Kinds of tokens. -/
inductive TokenKind where
  /-- A name or a keyword. -/
  | name
  /-- A name behind a hash sign. -/
  | privateName
  | number
  | string
  /-- A punctuator. -/
  | mark
  | finish
  /-- Characters that form no token. -/
  | bad
deriving DecidableEq, Repr

/-- A token with what separates it from the one before. -/
structure Token where
  kind : TokenKind
  text : String
  start : Mark
  stop : Mark
  /-- A statement with a value for its last part ends before the token, without a semicolon. -/
  ending : Bool
  /-- Any other statement ends before the token, without a semicolon. -/
  bareEnding : Bool
  /-- A hard blank stands before the token, with no comment in between. -/
  veiled : Bool
  /-- The source ends here, with nothing but blanks behind the end of a statement. -/
  last : Bool
  /-- A reserved word that stands for a name. -/
  free : Bool := false

/-- Punctuators, longer ones first. -/
def punctuators : List String :=
  [">>>=", "...", "===", "!==", "**=", "<<=", ">>=", ">>>", "&&=", "||=", "??=", "=>", "==", "!=",
   "<=", ">=", "&&", "||", "??", "?.", "++", "--", "+=", "-=", "*=", "/=", "%=", "&=", "|=", "^=",
   "<<", ">>", "**", "\x7b", "\x7d", "(", ")", "[", "]", ";", ",", "<", ">", "+", "-", "*", "/",
   "%", "&", "|", "^", "!", "~", "?", ":", "=", ".", "`"]

/-- The punctuator that the source starts with; a question mark before a fraction is not joined to
the point. -/
def punctuator? (cs : List Char) : Option String :=
  punctuators.find? fun p =>
    p.toList.isPrefixOf cs &&
      !(p == "?." && ((cs.drop 2).head?.map Char.isDigit).getD false)

/-- The source starts with a name. -/
def startsName : List Char → Bool
  | '\\' :: cs => (codePointLength? cs).isSome
  | c :: _ => isNameStart c
  | [] => false

/-- Kind and length of the token that the source starts with. -/
def tokenShape (cs : List Char) : TokenKind × Nat :=
  match cs with
  | [] => (.finish, 0)
  | c :: rest =>
    if startsName cs then (.name, nameLength 0 cs)
    else if c == '#' then
      if startsName rest then (.privateName, 1 + nameLength 0 rest) else (.bad, 1)
    else if c.isDigit || (c == '.' && (rest.head?.map Char.isDigit).getD false) then
      (.number, numberLength cs)
    else if c == '"' || c == '\'' then
      match stringLength? c .text rest with
      | some n => (.string, 1 + n)
      | none => (.bad, 1)
    else match punctuator? cs with
      | some p => (.mark, p.length)
      | none => (.bad, 1)

/-! ### Blanks and comments -/

/-- Where the search for the next token stands. -/
inductive Trivia where
  | blank
  | lineComment
  | blockComment

/-- What lies between two tokens: where the next one starts, and whether a hard blank was passed
since the last token or comment. -/
structure Gap where
  cursor : Cursor
  veiled : Bool

/-- Skip blanks and comments.  A slash and a star open a comment only if it is closed. -/
def skipTrivia : Trivia → Bool → Mark → List Char → Gap
  | _, v, m, [] => ⟨⟨[], m⟩, v⟩
  | .blockComment, v, m, '*' :: '/' :: cs => skipTrivia .blank v ((m.behind '*').behind '/') cs
  | .blockComment, v, m, c :: cs => skipTrivia .blockComment v (m.behind c) cs
  | .lineComment, v, m, c :: cs =>
    skipTrivia (if endsLine c || c == '\r' then .blank else .lineComment) v (m.behind c) cs
  | .blank, _, m, '/' :: '/' :: cs =>
    skipTrivia .lineComment false ((m.behind '/').behind '/') cs
  | .blank, v, m, '/' :: '*' :: cs =>
    if (behindBlockComment? cs).isSome then
      skipTrivia .blockComment false ((m.behind '/').behind '*') cs
    else ⟨⟨'/' :: '*' :: cs, m⟩, v⟩
  | .blank, v, m, c :: cs =>
    if isBlank c then skipTrivia .blank (v || isHardBlank c) (m.behind c) cs
    else ⟨⟨c :: cs, m⟩, v⟩

/-! ### The scanner -/

/-- The source with its next token read. -/
structure Scanner where
  token : Token
  /-- Where the token starts. -/
  here : Cursor
  /-- Where the token ends. -/
  next : Cursor
  /-- End of the token before. -/
  last : Mark
  /-- More than the number of tokens left. -/
  limit : Nat

/-- Read the token behind a position. -/
def scan (limit : Nat) (c : Cursor) : Scanner :=
  let gap := skipTrivia .blank false c.mark c.rest
  let (kind, length) := tokenShape gap.cursor.rest
  let next := gap.cursor.forward length
  let text := if kind = .name ∨ kind = .mark then String.ofList (gap.cursor.rest.take length) else ""
  let end? := insertion? false limit limit c.rest
  let token := {
    kind, text
    start := gap.cursor.mark
    stop := next.mark
    ending := end?.isSome
    bareEnding := (insertion? true limit limit c.rest).isSome
    veiled := gap.veiled
    last := (end?.map (·.all isBlank)).getD false }
  ⟨token, gap.cursor, next, c.mark, limit⟩

/-- The first token of a source. -/
def Scanner.ofSource (source : List Char) : Scanner :=
  scan (source.length + 2) ⟨source, ⟨0, 0, 0⟩⟩

/-- The source with the next token passed. -/
def Scanner.advance (s : Scanner) : Scanner := scan s.limit s.next

namespace Token

/-- The token is a given punctuator. -/
def isMark (t : Token) (text : String) : Bool := t.kind == .mark && t.text == text

/-- The token is a given word. -/
def isWord (t : Token) (text : String) : Bool := t.kind == .name && !t.free && t.text == text

/-- Words that are not names of variables. -/
def reserved : List String :=
  ["break", "case", "catch", "class", "const", "continue", "debugger", "default", "delete", "do",
   "else", "export", "extends", "false", "finally", "for", "function", "if", "import", "in",
   "instanceof", "new", "null", "return", "super", "switch", "this", "throw", "true", "try",
   "typeof", "var", "void", "while", "with"]

/-- Reserved words that neither a statement nor a value starts with. -/
def reservedInside : List String :=
  ["case", "catch", "default", "else", "extends", "finally", "in", "instanceof"]

/-- The token where statements could stand as well as properties: a reserved word is a name there,
unless a statement or a value starts with it. -/
def freed (t : Token) : Token :=
  { t with free := t.kind == .name && reservedInside.contains t.text }

/-- The token can name what is declared. -/
def isIdentifier (t : Token) : Bool := t.kind == .name && (t.free || !reserved.contains t.text)

/-- The token can name a value. -/
def isName (t : Token) : Bool := t.isIdentifier || t.isWord "export"

/-- The token can name a statement or a property by itself, where a value could stand too. -/
def isLabel (t : Token) : Bool := t.isName && !(["undefined", "yield"].contains t.text)

/-- A statement can end before the token without a semicolon. -/
def allowsEnd (t : Token) (afterValue : Bool) : Bool := if afterValue then t.ending else t.bareEnding

/-- The token joins values, and no statement can start with it. -/
def joins (t : Token) : Bool :=
  t.isWord "in" || t.isWord "instanceof" ||
    [".", "?.", ",", "=", "?", "??", "||", "&&", "|", "^", "&", "==", "!=", "===", "!==", "<=", ">",
     ">=", "<<", ">>", ">>>", "*", "%", "**"].any t.isMark

end Token

end StackScript.Grammar
