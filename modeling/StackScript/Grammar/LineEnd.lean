import StackScript.Grammar.Character

/-!
# Statements that end with their line

A statement needs no semicolon before a closing brace, at the end of the source, and at the end of
a line unless the next line goes on with it.  `insertion?` finds where that is so, given the text
behind the last token.

Comments are looked through from the last token on.  Where that does not settle the matter, the
first comment is passed and the text behind it is judged by itself.
-/

namespace StackScript.Grammar

/-- Where the text stands that is passed. -/
inductive Passing where
  | blank
  | lineComment
  | blockComment

/-- How blanks and comments came to an end. -/
inductive Passed where
  /-- At a slash that opens no comment. -/
  | atSlash
  /-- Behind a comment on one line. -/
  | behindRemark
  /-- At any other character, or behind a comment that spans lines. -/
  | clear
deriving DecidableEq

/-- Pass soft blanks and comments, and give what follows.  Unless all comments are passed, the end of
a block comment is the end, if no slash comes right behind it. -/
def passRemarks (all : Bool) : Passing → Bool → List Char → Passed × List Char
  | _, _, [] => (.clear, [])
  | .lineComment, spans, c :: cs =>
    passRemarks all (if endsLine c then .blank else .lineComment) spans cs
  | .blockComment, spans, '*' :: '/' :: cs =>
    if all || cs.head? == some '/' then passRemarks all .blank spans cs
    else (if spans then .clear else .behindRemark, cs)
  | .blockComment, spans, c :: cs => passRemarks all .blockComment (spans || endsLine c) cs
  | .blank, spans, '/' :: '/' :: cs => passRemarks all .lineComment spans cs
  | .blank, spans, '/' :: '*' :: cs => passRemarks all .blockComment spans cs
  | .blank, spans, c :: cs =>
    if isSoftBlank c then passRemarks all .blank spans cs
    else if c == '/' then (.atSlash, cs)
    else (.clear, c :: cs)

/-- A line that starts so goes on with the statement before it. -/
def goesOn : List Char → Bool
  | [] => false
  | '.' :: cs => !startsWith Char.isDigit cs
  | '+' :: cs => cs.head? != some '+'
  | '-' :: cs => cs.head? != some '-'
  | '!' :: cs => cs.head? == some '='
  | 'i' :: 'n' :: cs =>
    !startsWith isLetter cs ||
      ("stanceof".toList.isPrefixOf cs && !startsWith isLetter (cs.drop 8))
  | c :: _ => "`,:;*%><=[(?^|&/".toList.contains c

/-- The line that starts here does not go on with the statement before it. -/
def startsStatement (cs : List Char) : Bool :=
  match passRemarks true .blank false cs with
  | (.atSlash, _) => false
  | (_, rest) => !goesOn rest

/-- A statement ends before this text.  `remarks` says whether a comment that spans lines counts as
the end of a line, which it does where the statement has no value for its last part. -/
def endsBefore (remarks : Bool) : Nat → List Char → Bool
  | 0, _ => false
  | _, [] => true
  | n + 1, c :: cs =>
    let judge : List Char → Bool
      | [] => false
      | '}' :: _ => true
      | c :: cs =>
        if endsLine c then startsStatement cs
        else isSoftBlank c && endsBefore remarks n cs
    if c == '/' then
      match passRemarks false .blank false (c :: cs) with
      | (.atSlash, _) => false
      | (passed, rest) =>
        if passed == .clear && remarks && !startsWith (fun c => c == ',' || c == '=') rest then true
        else judge rest
    else judge (c :: cs)

/-- Where a statement ends without a semicolon: the text from there on.  The number bounds the
length of the text. -/
def insertion? (remarks : Bool) (bound : Nat) : Nat → List Char → Option (List Char)
  | 0, _ => none
  | n + 1, cs =>
    if endsBefore remarks bound cs then some cs
    else (behindComment? cs).bind (insertion? remarks bound n)

end StackScript.Grammar
