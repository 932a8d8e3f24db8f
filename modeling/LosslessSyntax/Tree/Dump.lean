import LosslessSyntax.Token.Dump
import LosslessSyntax.Tree.Basic

/-!
# The tree dump

A tree is shown with one node or token a row, children below their parent and indented by one step
more. The row of a node has its name and its span, that of a token its role in the parent and the
token. Identifiers and literals are single tokens, and their role is the name of the node.

A tree whose tokens are out of order may have a node that ends before it starts, and then no dump.
-/

namespace LosslessSyntax

/-- What a row of the dump shows. -/
inductive Row
  /-- A node with its span. -/
  | node (name : String) (span : Span)
  /-- A token in its role. -/
  | token (role : String) (item : Token)

/-- A row without its indentation. -/
def Row.describe (row : Row) (plain : Char → Bool := Quoted.isPlain) : String :=
  match row with
  | node name span => name ++ " " ++ toString span
  | token role item => role ++ ": " ++ item.describe plain

/-- The rows of an outline, each with the depth at which it stands. -/
abbrev Outline := List (Nat × Row)

namespace Outline

/-- A node above the rows of its children. -/
def node (depth : Nat) (name : String) (span : Span) (children : Outline) : Outline :=
  (depth, .node name span) :: children

/-- A single token. -/
def token (depth : Nat) (role : String) (item : Token) : Outline :=
  [(depth, .token role item)]

/-- One row a line, with two blanks for each step of depth. -/
def render (outline : Outline) (plain : Char → Bool := Quoted.isPlain) : String :=
  String.join (outline.map fun (depth, row) =>
    String.ofList (List.replicate (2 * depth) ' ') ++ row.describe plain ++ "\n")

end Outline

/-- The rows of an assignment, given those of its value. It reaches from its name to the end of its
value. -/
def assignmentOutline (depth : Nat) (name equals : Token) (value : Expression Token)
    (children : Outline) : Except Fault Outline := do
  let span ← Span.ofBounds name.span.start (← value.span).stop
  return .node depth "AssignmentExpression" span
    (.token (depth + 1) "identifier" name ++ .token (depth + 1) "equals" equals ++ children)

/-- The rows of an expression. -/
def Expression.outline (depth : Nat) : Expression Token → Except Fault Outline
  | literal value => .ok (.token depth "LiteralExpression" value)
  | identifier name => .ok (.token depth "IdentifierExpression" name)
  | assignment name equals value => do
    assignmentOutline depth name equals value (← value.outline (depth + 1))
  | binary left operator right => do
    return .node depth "BinaryExpression" (← (binary left operator right).span)
      ((← left.outline (depth + 1)) ++ .token (depth + 1) "operator" operator ++
        (← right.outline (depth + 1)))
  | unary operator operand => do
    return .node depth "UnaryExpression" (← (unary operator operand).span)
      (.token (depth + 1) "operator" operator ++ (← operand.outline (depth + 1)))
  | parenthesized opening inner closing => do
    return .node depth "ParenthesizedExpression" (← (parenthesized opening inner closing).span)
      (.token (depth + 1) "open" opening ++ (← inner.outline (depth + 1)) ++
        .token (depth + 1) "close" closing)

namespace Statement

mutual

/-- The rows of a statement. -/
def outline (depth : Nat) : Statement Token → Except Fault Outline
  | expression value semicolon => do
    return .node depth "ExpressionStatement" (← (expression value semicolon).span)
      ((← value.outline (depth + 1)) ++ .token (depth + 1) "semicolon" semicolon)
  | block opening body closing => do
    return .node depth "BlockStatement" (← (block opening body closing).span)
      (.token (depth + 1) "open" opening ++ (← outlineOfAll (depth + 1) body) ++
        .token (depth + 1) "close" closing)
  | declaration type name semicolon => do
    return .node depth "VariableDeclarationStatement" (← (declaration type name semicolon).span)
      (.token (depth + 1) "type" type ++ .token (depth + 1) "identifier" name ++
        .token (depth + 1) "semicolon" semicolon)
  | initialization type name equals value semicolon => do
    return .node depth "VariableInitializationStatement"
      (← (initialization type name equals value semicolon).span)
      (.token (depth + 1) "type" type ++
        (← assignmentOutline (depth + 1) name equals value (← value.outline (depth + 2))) ++
        .token (depth + 1) "semicolon" semicolon)

/-- The rows of some statements, one after the other. -/
def outlineOfAll (depth : Nat) : List (Statement Token) → Except Fault Outline
  | [] => .ok []
  | statement :: others => do
    return (← outline depth statement) ++ (← outlineOfAll depth others)

end

end Statement

/-- The dump of a tree, the end of the input last. -/
def dumpTree (tree : SyntaxTree) (plain : Char → Bool := Quoted.isPlain) :
    Except Fault String := do
  let outline ← Statement.outlineOfAll 0 tree.statements
  return (outline ++ .token 0 "end" tree.endOfFile).render plain

end LosslessSyntax
