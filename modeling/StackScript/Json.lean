import StackScript.Double.Spelling
import StackScript.Text.Quoted

/-!
# JSON values and their text

`Json` keeps integers apart from numbers with a fraction or an exponent, and the fields of an
object in their order.  `Json.write` gives the text, compact or with one item a line.
-/

namespace StackScript

/-- A JSON value. -/
inductive Json where
  | null
  | bool (b : Bool)
  | int (n : Int)
  | float (x : Double)
  | string (s : String)
  | array (items : List Json)
  | object (fields : List (String × Json))

namespace Json

/-- JSON writes powers from `-5` to `15` in full, and always with a point. -/
def numberLayout : Layout := ⟨-5, 16, true, 1⟩

/-- The text of a number. -/
def number : Double → List Char
  | .nan => "NaN".toList
  | .infinity s => (if s then "-Infinity" else "Infinity").toList
  | .finite s a => numberLayout.write s a

/-- The text of an integer. -/
def integer (n : Int) : List Char :=
  (if n < 0 then ['-'] else []) ++ Nat.toDigits 10 n.natAbs

/-- How values are laid out. -/
inductive Style where
  /-- Without blanks. -/
  | compact
  /-- Items on lines of their own, two blanks deeper than what holds them. -/
  | indented

namespace Style

/-- What stands before an item at the given depth. -/
def lineBreak : Style → Nat → List Char
  | compact, _ => []
  | indented, depth => '\n' :: List.replicate (2 * depth) ' '

/-- What stands between a key and its value. -/
def colon : Style → List Char
  | compact => [':']
  | indented => [':', ' ']

end Style

mutual

/-- The text of a value at a given depth. -/
def writeAt (style : Style) (depth : Nat) : Json → List Char
  | null => "null".toList
  | bool b => (if b then "true" else "false").toList
  | int n => integer n
  | float x => number x
  | string s => (Text.quote s).toList
  | array [] => ['[', ']']
  | array (v :: vs) =>
    '[' :: style.lineBreak (depth + 1) ++ writeAt style (depth + 1) v ++
      writeItems style (depth + 1) vs ++ style.lineBreak depth ++ [']']
  | object [] => ['{', '}']
  | object ((k, v) :: fields) =>
    '{' :: style.lineBreak (depth + 1) ++ (Text.quote k).toList ++ style.colon ++
      writeAt style (depth + 1) v ++ writeFields style (depth + 1) fields ++
      style.lineBreak depth ++ ['}']

/-- The text of further items. -/
def writeItems (style : Style) (depth : Nat) : List Json → List Char
  | [] => []
  | v :: vs =>
    ',' :: style.lineBreak depth ++ writeAt style depth v ++ writeItems style depth vs

/-- The text of further fields. -/
def writeFields (style : Style) (depth : Nat) : List (String × Json) → List Char
  | [] => []
  | (k, v) :: fields =>
    ',' :: style.lineBreak depth ++ (Text.quote k).toList ++ style.colon ++
      writeAt style depth v ++ writeFields style depth fields

end

/-- The text of a value. -/
def write (style : Style) (v : Json) : String := String.ofList (writeAt style 0 v)

end Json

end StackScript
