import StackScript.SyntaxTree

/-!
# Trees as tables

A table lists the nodes of a tree, each with the row number of its parent; parents stand before
their children, and children keep their order.
-/

namespace StackScript

/-- A row of a table: the parent's row, and the node. -/
structure TreeRow where
  parent : Option Nat
  info : NodeInfo

namespace SyntaxTree

/-- Add a tree in front of those that wait for the parent in a given row. -/
def addChild (row : Nat) (t : SyntaxTree) :
    List (Nat × List SyntaxTree) → List (Nat × List SyntaxTree)
  | [] => [(row, [t])]
  | (r, ts) :: rest => if r = row then (r, t :: ts) :: rest else (r, ts) :: addChild row t rest

/-- Build trees from the last row to the first, the number of rows left being the row's number.
The trees that wait for their parents are kept by the parent's row. -/
def assemble : Nat → List TreeRow → List (Nat × List SyntaxTree) → Option SyntaxTree
  | _, [], _ => none
  | row, r :: rest, waiting =>
    let t := node r.info ((waiting.lookup row).getD [])
    match r.parent with
    | some parent => assemble (row - 1) rest (addChild parent t waiting)
    | none => if rest.isEmpty then some t else assemble (row - 1) rest waiting

/-- The tree whose root is the first row. -/
def ofTable? (rows : List TreeRow) : Option SyntaxTree :=
  assemble (rows.length - 1) rows.reverse []

end SyntaxTree

end StackScript
