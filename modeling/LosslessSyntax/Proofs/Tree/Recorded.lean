import LosslessSyntax.Proofs.Tree.Operator
import LosslessSyntax.Proofs.Tree.Reading

/-!
# What the parser records

The parser records unexpected tokens in the order in which it takes them, and beside the tree that
it builds. Nothing else has to be known of the order: what is recorded is just what can be read off
the leaves afterwards, from left to right. This holds of every reading of an expression and of
statements (`errors_of_reads`, `errors_of_readsAll`), hence of programs (`errors_parsed`), and the
tree that is answered is the one that the program has by itself (`tree_parsed`).
-/

namespace LosslessSyntax

variable {α : Type}

/-! ### What can be read off -/

namespace Leaf

/-- The token of a missing leaf, as one that was not expected. -/
def unexpected? : Leaf α → Option (Unexpected α)
  | missing expected token => some ⟨expected, token⟩
  | _ => none

/-- The error that a leaf reports. -/
def error? (leaf : Leaf Token) : Option ParseError :=
  leaf.unexpected?.map Unexpected.error

end Leaf

namespace Parser

/-- The leaves of a program in order. -/
def Program.leaves (p : Program α) : List (Leaf α) :=
  p.statements.flatMap Statement.leaves ++ [p.closing]

/-- The tree of a program: the tokens of its leaves, and the errors that they report. -/
def Program.tree (p : Program Token) : SyntaxTree where
  statements := p.statements.map (Statement.map Leaf.token)
  endOfFile := p.closing.token
  diagnostics := p.leaves.filterMap Leaf.error?

variable [Readable α]

/-- The program that a stream spells, up to its first end of input between statements. -/
def program (sentinel : α) (ts : List α) : Program α :=
  (parsed sentinel ts).value

/-! ### Single tokens -/

theorem errors_expect (sentinel : α) (kinds : List TokenKind) (ts : List α) :
    (expect sentinel kinds ts).errors =
      [(expect sentinel kinds ts).value].filterMap Leaf.unexpected? := by
  simp only [expect]
  split <;> rfl

/-- Every operator is expected. -/
theorem errors_operator (t : α) (ts : List α) :
    (operator t ts).errors = [(operator t ts).value].filterMap Leaf.unexpected? := by
  rcases operator_cases t ts with hone | ⟨compound, others, rest, -, -, hmerged⟩
  · rw [hone]
    rfl
  · rw [hmerged]
    rfl

/-! ### Expressions and statements -/

/-- What is recorded in a reading can be read off its leaves. -/
theorem errors_of_reads {sentinel : α} {level : Nat} {ts : List α}
    {p : Parsed α (Expression (Leaf α))} (h : Reads sentinel level ts p) :
    p.errors = p.value.leaves.filterMap Leaf.unexpected? := by
  induction h with
  | literal => exact errors_expect _ _ _
  | identifier => rfl
  | @assignment _ t ts equals value _ hequals _ _ ih =>
    obtain ⟨u, rest, -, -, rfl⟩ := equals?_eq_some hequals
    exact ih
  | @parenthesized _ t ts inner _ _ _ ih =>
    have hclosing := errors_expect sentinel [.rightParen] (inner.rest ts)
    simp only [Parsed.app, Parsed.one, List.nil_append, ih, hclosing, ← List.filterMap_append]
    rfl
  | @unary _ t ts operand _ _ _ _ ih =>
    simp only [Parsed.app, Parsed.map, ih, errors_operator, ← List.filterMap_append]
    rfl
  | @binary _ ts rest t left right _ _ _ _ _ ihleft ihright =>
    simp only [Parsed.app, Parsed.map, ihleft, ihright, errors_operator, ← List.filterMap_append,
      List.append_assoc]
    rfl

private theorem errors_declaration (sentinel t : α) (ts : List α) :
    (declaration sentinel t ts).errors =
      (declaration sentinel t ts).value.leaves.filterMap Leaf.unexpected? := by
  cases hequals : equals? (ts.drop 1) with
  | none =>
    rw [declaration_of_equals?_eq_none hequals]
    simp only [Parsed.app, Parsed.map, Parsed.one, List.nil_append, errors_expect,
      ← List.filterMap_append]
    rfl
  | some equals =>
    obtain ⟨u, rest, -, -, rfl⟩ := equals?_eq_some hequals
    rw [declaration_of_equals?_eq_some hequals]
    have hvalue := errors_of_reads (reads_expression sentinel 0 ((ts.drop 1).drop 1))
    simp only [Parsed.app, Parsed.map, Parsed.one, Parsed.rest, List.nil_append, List.append_nil,
      errors_expect, hvalue, ← List.filterMap_append]
    rfl

private theorem errors_expressionStatement (sentinel : α) (ts : List α) :
    (expressionStatement sentinel ts).errors =
      (expressionStatement sentinel ts).value.leaves.filterMap Leaf.unexpected? := by
  simp only [expressionStatement, Parsed.app, Parsed.map, errors_expect,
    errors_of_reads (reads_expression sentinel 0 ts), ← List.filterMap_append]
  rfl

/-- What is recorded in a reading of statements can be read off their leaves. -/
theorem errors_of_readsAll {sentinel : α} {closers : List TokenKind} {ts : List α}
    {ps : List (Parsed α (Statement (Leaf α)))} (h : ReadsAll sentinel closers ts ps) :
    ps.flatMap Parsed.errors =
      (ps.flatMap fun p => p.value.leaves).filterMap Leaf.unexpected? := by
  induction h with
  | nil => rfl
  | closer => rfl
  | @block closers t ts body others _ _ _ _ ihbody ih =>
    rw [List.flatMap_cons, List.flatMap_cons, List.filterMap_append, ih, leaves_blockOf]
    simp only [blockOf, ihbody, errors_expect, ← List.filterMap_append]
    rfl
  | @declaration closers t ts others _ _ _ ih =>
    rw [List.flatMap_cons, List.flatMap_cons, List.filterMap_append, ih, errors_declaration]
  | @expression closers t ts others _ _ ih =>
    rw [List.flatMap_cons, List.flatMap_cons, List.filterMap_append, ih,
      errors_expressionStatement]

/-! ### Programs -/

/-- **What is recorded is what the leaves say.** The unexpected tokens that the parser records while
it takes the tokens are those of the missing leaves of its program, in order. -/
theorem errors_parsed (sentinel : α) (ts : List α) :
    (parsed sentinel ts).errors = (program sentinel ts).leaves.filterMap Leaf.unexpected? := by
  simp only [parsed, program, Program.leaves, List.filterMap_append, List.flatMap_map,
    errors_expect, errors_of_readsAll (reads_statements sentinel [.endToken] ts)]

end Parser

/-- What is answered for a stream is the tree of its program. -/
theorem tree_parsed (sentinel : Token) (tokens : List Token) :
    (Parser.parsed sentinel tokens).tree = (Parser.program sentinel tokens).tree := by
  rw [Parsed.tree, Parser.errors_parsed, List.map_filterMap]
  rfl

end LosslessSyntax
