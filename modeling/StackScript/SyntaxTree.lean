import StackScript.Breakdown
import StackScript.CompileError

/-!
# Concrete syntax trees

A tree holds everything a parser found: nodes with a kind, the bytes they span, their place, and
whether the parser had to repair something in or below them.  `SyntaxTree.culprit` finds the node
to blame for a repair.
-/

namespace StackScript

/-- What a node says apart from its children. -/
structure NodeInfo where
  kind : String
  /-- First byte of the source that the node spans. -/
  start : Nat
  /-- First byte behind the node. -/
  stop : Nat
  /-- Row of the first byte, from zero. -/
  row : Nat
  /-- Byte of the row where the node starts. -/
  column : Nat
  /-- Named by the grammar; the others are marks and keywords. -/
  named : Bool
  /-- The node or something below it could not be parsed. -/
  hasError : Bool
  /-- The parser supposed a node that is not in the source. -/
  missing : Bool
  /-- The part that the node plays in its parent. -/
  field : Option String
deriving DecidableEq, Repr

/-- A syntax tree. -/
inductive SyntaxTree where
  | node (info : NodeInfo) (children : List SyntaxTree)
deriving Repr

/-- The text of a node, or why there is none. -/
abbrev Lexeme := Except Breakdown String

namespace SyntaxTree

/-- The node itself. -/
def info : SyntaxTree → NodeInfo
  | node i _ => i

/-- The nodes right below. -/
def children : SyntaxTree → List SyntaxTree
  | node _ cs => cs

/-- The kind of the node. -/
def kind (t : SyntaxTree) : String := t.info.kind

/-- Comments, which no construct looks at. -/
def isComment (t : SyntaxTree) : Bool := t.kind == "comment" || t.kind == "hash_bang_line"

/-- Named and not a comment: a node that stands for part of the script. -/
def isContent (t : SyntaxTree) : Bool := t.info.named && !t.isComment

/-- The place of the node. -/
def position (t : SyntaxTree) : Position := ⟨t.info.row + 1, t.info.column⟩

/-- The text that the node spans. -/
def text (source : ByteArray) (t : SyntaxTree) : Lexeme :=
  match String.fromUTF8? (source.extract t.info.start t.info.stop) with
  | some s => .ok s
  | none => .error .notText

/-! ### Search for what could not be parsed -/

mutual

/-- Number of nodes. -/
def size : SyntaxTree → Nat
  | node _ cs => 1 + sizeAll cs

/-- Number of nodes of several trees. -/
def sizeAll : List SyntaxTree → Nat
  | [] => 0
  | t :: ts => t.size + sizeAll ts

end

theorem sizeAll_append (ts us : List SyntaxTree) :
    sizeAll (ts ++ us) = sizeAll ts + sizeAll us := by
  induction ts with
  | nil => simp [sizeAll]
  | cons t ts ih => simp [sizeAll, ih, Nat.add_assoc]

theorem sizeAll_filter_le (p : SyntaxTree → Bool) (ts : List SyntaxTree) :
    sizeAll (ts.filter p) ≤ sizeAll ts := by
  induction ts with
  | nil => simp
  | cons t ts ih =>
    rw [List.filter_cons]
    split
    · simp only [sizeAll]; omega
    · simp only [sizeAll]; omega

theorem sizeAll_children (t : SyntaxTree) : sizeAll t.children < t.size := by
  cases t with
  | node i cs => simp [children, size]

/-- A node that marks a fault by itself. -/
def isFault (t : SyntaxTree) : Bool := t.kind == "ERROR" || t.info.missing

/-- A node with a fault in it, by its flags. -/
def isSuspect (t : SyntaxTree) : Bool := t.info.hasError || t.info.missing

/-- The first fault among trees that wait to be searched, in document order. -/
def searchFault : List SyntaxTree → Option SyntaxTree
  | [] => none
  | t :: waiting =>
    if t.isFault then some t
    else searchFault (t.children.filter isSuspect ++ waiting)
termination_by waiting => sizeAll waiting
decreasing_by
  have h₁ := sizeAll_filter_le isSuspect t.children
  have h₂ := sizeAll_children t
  rw [sizeAll_append]
  simp only [sizeAll]
  omega

/-- The node to blame for a fault below the given one: the fault itself, if it can be found. -/
def culprit (t : SyntaxTree) : SyntaxTree := (searchFault [t]).getD t

end SyntaxTree

end StackScript
