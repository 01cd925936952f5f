import StackScript.SyntaxTree

/-!
# Scripts

`Script` is what compilation sees of a syntax tree: statements, declarations, binding patterns and
expressions, each with its place.  Constructs outside the supported language keep their kind, so
that refusing them can name it; parts that a tree lacks keep the reason.  `Script.ofTree` reads a
tree, and never looks at comments.
-/

namespace StackScript

/-- Expressions. -/
inductive Expr where
  | number (pos : Position) (text : Lexeme)
  | boolean (pos : Position) (value : Bool)
  | string (pos : Position) (text : Lexeme)
  | identifier (pos : Position) (name : Lexeme)
  | parenthesized (pos : Position) (inner : Expr)
  | binary (pos : Position) (left right : Expr) (operator : Lexeme)
  | unsupported (pos : Position) (kind : String)
  | broken (why : Breakdown)

/-- Keys of the pairs in an object pattern. -/
inductive PropertyKey where
  | name (text : Lexeme)
  | computed (pos : Position)
  | unsupported (pos : Position) (kind : String)
  | broken (why : Breakdown)

/-- Properties of an object pattern. -/
inductive Property where
  | shorthand (name : Lexeme)
  | pair (key : PropertyKey)
  | unsupported (pos : Position) (kind : String)

/-- Binding patterns. -/
inductive Pattern where
  | identifier (pos : Position) (name : Lexeme)
  | array (pos : Position) (elements : List Pattern)
  | object (pos : Position) (properties : List Property)
  | unsupported (pos : Position) (kind : String)
  | broken (why : Breakdown)

/-- One pattern of a declaration with the value bound to it, if one is given. -/
structure Declarator where
  target : Pattern
  value : Option Expr

/-- Statements. -/
inductive Stmt where
  | expression (pos : Position) (value : Expr)
  | lexical (pos : Position) (kind : Lexeme) (declarators : List Declarator)
  /-- A declaration that is never supported; its kind as it is named when refused. -/
  | foreign (pos : Position) (kind : String)
  | ifThen (pos : Position) (test : Expr) (body : Stmt)
  | ifElse (pos : Position) (test : Expr) (body : Stmt) (alternative : Stmt)
  | empty (pos : Position)
  | block (pos : Position) (body : List Stmt)
  | unsupported (pos : Position) (kind : String)
  | broken (why : Breakdown)

/-- A place where the grammar is violated, and the text there. -/
structure Damage where
  pos : Position
  text : Lexeme

/-- A statement of the outermost level, with its damage. -/
structure TopLevel where
  damage : Option Damage
  stmt : Stmt

/-- A whole script, with the damage found anywhere in it. -/
structure Script where
  damage : Option Damage
  body : List TopLevel

/-! ### Reading a tree -/

/-- The text of the first child that plays a part. -/
def fieldText (source : ByteArray) (name : String) (cs : List SyntaxTree) : Lexeme :=
  match cs.find? (·.info.field == some name) with
  | some c => c.text source
  | none => .error .noPart

mutual

/-- Read a node as an expression. -/
def Expr.ofTree (source : ByteArray) : SyntaxTree → Expr
  | t@(.node i cs) =>
    match i.kind with
    | "number" => .number t.position (t.text source)
    | "true" => .boolean t.position true
    | "false" => .boolean t.position false
    | "string" => .string t.position (t.text source)
    | "identifier" => .identifier t.position (t.text source)
    | "parenthesized_expression" => .parenthesized t.position (Expr.ofFirst source cs)
    | "binary_expression" =>
      .binary t.position (Expr.ofField source "left" cs) (Expr.ofField source "right" cs)
        (fieldText source "operator" cs)
    | kind => .unsupported t.position kind

/-- Read the first content node. -/
def Expr.ofFirst (source : ByteArray) : List SyntaxTree → Expr
  | [] => .broken .noChild
  | c :: cs => if c.isContent then Expr.ofTree source c else Expr.ofFirst source cs

/-- Read the first child that plays a part. -/
def Expr.ofField (source : ByteArray) (name : String) : List SyntaxTree → Expr
  | [] => .broken .noPart
  | c :: cs =>
    if c.info.field == some name then Expr.ofTree source c else Expr.ofField source name cs

end

/-- Read a node as the key of a pair. -/
def PropertyKey.ofTree (source : ByteArray) (t : SyntaxTree) : PropertyKey :=
  if t.kind = "property_identifier" then .name (t.text source)
  else if t.kind = "computed_property_name" then .computed t.position
  else .unsupported t.position t.kind

/-- Read a node as a property of an object pattern. -/
def Property.ofTree (source : ByteArray) (t : SyntaxTree) : Property :=
  if t.kind = "shorthand_property_identifier_pattern" then .shorthand (t.text source)
  else if t.kind = "pair_pattern" then
    match t.children.find? (·.info.field == some "key") with
    | some key => .pair (.ofTree source key)
    | none => .pair (.broken .noPart)
  else .unsupported t.position t.kind

mutual

/-- Read a node as a binding pattern. -/
def Pattern.ofTree (source : ByteArray) : SyntaxTree → Pattern
  | t@(.node i cs) =>
    match i.kind with
    | "identifier" => .identifier t.position (t.text source)
    | "array_pattern" => .array t.position (Pattern.ofChildren source cs)
    | "object_pattern" =>
      .object t.position ((cs.filter SyntaxTree.isContent).map (Property.ofTree source))
    | kind => .unsupported t.position kind

/-- Read the content nodes as binding patterns. -/
def Pattern.ofChildren (source : ByteArray) : List SyntaxTree → List Pattern
  | [] => []
  | c :: cs =>
    if c.isContent then Pattern.ofTree source c :: Pattern.ofChildren source cs
    else Pattern.ofChildren source cs

end

/-- Read a node as a declarator. -/
def Declarator.ofTree (source : ByteArray) (t : SyntaxTree) : Declarator where
  target := match t.children.find? (·.info.field == some "name") with
    | some c => .ofTree source c
    | none => .broken .noPart
  value := (t.children.find? (·.info.field == some "value")).map (.ofTree source)

/-- The word that opens a declaration: the child marked so, else the first child. -/
def declarationKind (source : ByteArray) (cs : List SyntaxTree) : Lexeme :=
  match (cs.find? (·.info.field == some "kind")).or cs.head? with
  | some c => c.text source
  | none => .error .noChild

/-- The declarators among the children of a declaration. -/
def declarators (source : ByteArray) (cs : List SyntaxTree) : List Declarator :=
  (cs.filter fun c => c.info.named && c.kind == "variable_declarator").map (.ofTree source)

mutual

/-- Read a node as a statement. -/
def Stmt.ofTree (source : ByteArray) : SyntaxTree → Stmt
  | t@(.node i cs) =>
    match i.kind with
    | "expression_statement" => .expression t.position (Expr.ofFirst source cs)
    | "lexical_declaration" =>
      .lexical t.position (declarationKind source cs) (declarators source cs)
    | "variable_declaration" => .foreign t.position "var"
    | "function_declaration" => .foreign t.position "function_declaration"
    | "generator_function_declaration" => .foreign t.position "generator_function_declaration"
    | "class_declaration" => .foreign t.position "class_declaration"
    | "if_statement" =>
      let test := Expr.ofField source "condition" cs
      let body := (Stmt.ofField? source "consequence" cs).getD (.broken .noPart)
      match Stmt.ofAlternative? source cs with
      | none => .ifThen t.position test body
      | some alternative => .ifElse t.position test body alternative
    | "empty_statement" => .empty t.position
    | "statement_block" => .block t.position (Stmt.ofChildren source cs)
    | kind => .unsupported t.position kind
termination_by t => sizeOf t
decreasing_by all_goals (simp only [SyntaxTree.node.sizeOf_spec]; omega)

/-- Read the content nodes as statements. -/
def Stmt.ofChildren (source : ByteArray) : List SyntaxTree → List Stmt
  | [] => []
  | c :: cs =>
    if c.isContent then Stmt.ofTree source c :: Stmt.ofChildren source cs
    else Stmt.ofChildren source cs
termination_by cs => sizeOf cs
decreasing_by all_goals (simp only [List.cons.sizeOf_spec]; omega)

/-- Read the first content node as a statement. -/
def Stmt.ofFirst (source : ByteArray) : List SyntaxTree → Stmt
  | [] => .broken .noChild
  | c :: cs => if c.isContent then Stmt.ofTree source c else Stmt.ofFirst source cs
termination_by cs => sizeOf cs
decreasing_by all_goals (simp only [List.cons.sizeOf_spec]; omega)

/-- Read the first child that plays a part as a statement. -/
def Stmt.ofField? (source : ByteArray) (name : String) : List SyntaxTree → Option Stmt
  | [] => none
  | c :: cs =>
    if c.info.field == some name then some (Stmt.ofTree source c)
    else Stmt.ofField? source name cs
termination_by cs => sizeOf cs
decreasing_by all_goals (simp only [List.cons.sizeOf_spec]; omega)

/-- Read the alternative of a condition: the statement inside an `else` clause, or the node
itself where there is no clause around it. -/
def Stmt.ofAlternative? (source : ByteArray) : List SyntaxTree → Option Stmt
  | [] => none
  | .node i ds :: cs =>
    if i.field == some "alternative" then
      some (if i.kind = "else_clause" then Stmt.ofFirst source ds
        else Stmt.ofTree source (.node i ds))
    else Stmt.ofAlternative? source cs
termination_by cs => sizeOf cs
decreasing_by all_goals (simp only [SyntaxTree.node.sizeOf_spec, List.cons.sizeOf_spec]; omega)

end

/-- The damage in a node, if its flags tell of any. -/
def SyntaxTree.damage? (source : ByteArray) (t : SyntaxTree) : Option Damage :=
  if t.info.hasError then some ⟨t.culprit.position, t.culprit.text source⟩ else none

/-- Read a whole tree. -/
def Script.ofTree (source : ByteArray) (root : SyntaxTree) : Script where
  damage := root.damage? source
  body := (root.children.filter SyntaxTree.isContent).map fun c =>
    ⟨c.damage? source, .ofTree source c⟩

end StackScript
