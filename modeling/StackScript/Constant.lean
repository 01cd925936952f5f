import StackScript.Double.Spelling
import StackScript.Text.CodePoint
import StackScript.Text.Quoted

/-!
# Constants

The values that code can push: numbers, truth values and texts.  Two constants are compared only
within one kind (`Constant.same`), numbers by value, so that the two zeros agree and not-a-number
agrees with nothing.
-/

namespace StackScript

/-- A constant of a program. -/
inductive Constant where
  | number (x : Double)
  | boolean (b : Bool)
  | string (s : String)
deriving DecidableEq

/-- The kinds of constants. -/
inductive ConstantKind where
  | number
  | boolean
  | string
deriving DecidableEq, Repr

namespace ConstantKind

/-- The word that tells the kind. -/
def name : ConstantKind → String
  | number => "number"
  | boolean => "boolean"
  | string => "string"

/-- The kind a word tells. -/
def ofName? (s : String) : Option ConstantKind :=
  [number, boolean, string].find? (·.name == s)

end ConstantKind

namespace Constant

/-- The kind of a constant. -/
def kind : Constant → ConstantKind
  | number _ => .number
  | boolean _ => .boolean
  | string _ => .string

/-- The constant as a listing shows it. -/
def text : Constant → String
  | number x => x.text
  | boolean b => if b then "true" else "false"
  | string s => Text.quote s

/-- Equality of kind and value. -/
def same : Constant → Constant → Bool
  | number x, number y => x.numEq y
  | boolean a, boolean b => a == b
  | string s, string t => s == t
  | _, _ => false

/-- A string constant from code points; none if one of them is a surrogate. -/
def ofCodePoints? (ps : List CodePoint) : Option Constant :=
  (CodePoint.toChars? ps).map (string ∘ String.ofList)

/-- Asking for the value of another kind than the constant's. -/
structure KindFault where
  wanted : ConstantKind
  found : Constant

/-- The wording of the fault. -/
def KindFault.message (f : KindFault) : String := s!"Not a {f.wanted.name}: {f.found.text}"

/-- The value of a number. -/
def toNumber : Constant → Except KindFault Double
  | number x => .ok x
  | c => .error ⟨.number, c⟩

/-- The value of a truth value. -/
def toBoolean : Constant → Except KindFault Bool
  | boolean b => .ok b
  | c => .error ⟨.boolean, c⟩

/-- The value of a text. -/
def toText : Constant → Except KindFault String
  | string s => .ok s
  | c => .error ⟨.string, c⟩

end Constant

end StackScript
