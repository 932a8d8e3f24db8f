import LosslessSyntax.Proofs.Tree.Nodes
import LosslessSyntax.Proofs.Tree.Spans

/-!
# Nodes lie in one another

A node is a token, an expression or a statement, and has children (`Node.children`), whose tokens
are those of the node. Where each token of a tree ends before the next one starts, every node has a
span, which goes from the start of its first token to the end of its last, and the spans of its
children are in it, one after the other (`Node.Placed`, `SyntaxTree.placed_statementNodes`,
`SyntaxTree.placed_expressionNodes`).

The dump of a tree does not ask an assignment for its span but builds one of its own, from the start
of the name to the end of the value. It is the same (`Statement.map_span_assignmentsOfAll`).
-/

namespace LosslessSyntax

/-! ### Tokens that end before others start -/

section

variable {tokens : List Token}

/-- No token starts before the first. -/
private theorem start_le_of_mem_head? {first : Token}
    (h : tokens.Pairwise fun a b => a.span.stop ≤ b.span.start) (hfirst : first ∈ tokens.head?) :
    ∀ item ∈ tokens, first.span.start ≤ item.span.start := by
  obtain ⟨others, rfl⟩ := List.head?_eq_some_iff.mp hfirst
  refine List.forall_mem_cons.mpr ⟨Nat.le_refl _, fun item hitem => ?_⟩
  exact Nat.le_trans (Nat.le_add_right _ _) (List.rel_of_pairwise_cons h hitem)

/-- No token ends after the last. -/
private theorem stop_le_of_mem_getLast? {last : Token}
    (h : tokens.Pairwise fun a b => a.span.stop ≤ b.span.start) (hlast : last ∈ tokens.getLast?) :
    ∀ item ∈ tokens, item.span.stop ≤ last.span.stop := by
  obtain ⟨others, rfl⟩ := List.getLast?_eq_some_iff.mp hlast
  refine List.forall_mem_append.mpr ⟨fun item hitem => ?_,
    List.forall_mem_singleton.mpr (Nat.le_refl _)⟩
  have hbefore := (List.pairwise_append.mp h).2.2 item hitem last (List.mem_singleton_self last)
  exact Nat.le_trans hbefore (Nat.le_add_right _ _)

end

/-- What an item of a list is mapped to is a part of what the list is mapped to. -/
private theorem isInfix_flatMap_of_mem {α β : Type} {item : α} {items : List α} (h : item ∈ items)
    (f : α → List β) : f item <:+: items.flatMap f := by
  rw [List.flatMap_def]
  exact List.infix_of_mem_flatten (List.mem_map_of_mem h)

/-! ### Nodes and their children -/

/-- What a tree is built from. -/
inductive Node
  | token (item : Token)
  | expression (e : Expression Token)
  | statement (s : Statement Token)

namespace Node

/-- The tokens of a node in order. -/
def leaves : Node → List Token
  | token item => [item]
  | expression e => e.leaves
  | statement s => s.leaves

/-- The span of a node. -/
def span : Node → Except Fault Span
  | token item => .ok item.span
  | expression e => e.span
  | statement s => s.span

/-- What a node is directly built from, in order. In a declaration with a value the assignment to
its name is one child. -/
def children : Node → List Node
  | token _ => []
  | expression (.literal value) => [token value]
  | expression (.identifier name) => [token name]
  | expression (.assignment name equals value) => [token name, token equals, expression value]
  | expression (.binary left operator right) =>
    [expression left, token operator, expression right]
  | expression (.unary operator operand) => [token operator, expression operand]
  | expression (.parenthesized opening inner closing) =>
    [token opening, expression inner, token closing]
  | statement (.expression value semicolon) => [expression value, token semicolon]
  | statement (.block opening body closing) =>
    token opening :: (body.map statement ++ [token closing])
  | statement (.declaration type name semicolon) => [token type, token name, token semicolon]
  | statement (.initialization type name equals value semicolon) =>
    [token type, expression (.assignment name equals value), token semicolon]

/-- The tokens of an expression are those of its children. -/
theorem flatMap_leaves_children_expression (e : Expression Token) :
    (expression e).children.flatMap leaves = e.leaves := by
  cases e <;> simp [children, leaves, Expression.leaves]

/-- The tokens of a statement are those of its children. -/
theorem flatMap_leaves_children_statement (s : Statement Token) :
    (statement s).children.flatMap leaves = s.leaves := by
  cases s with
  | block opening body closing =>
    simp [children, leaves, Statement.leaves, Statement.leavesOfAll_eq_flatMap, List.flatMap_map]
  | _ => simp [children, leaves, Statement.leaves, Expression.leaves]

/-- A node has a span, which goes from the start of its first token to the end of its last. -/
structure Reaches (node : Node) (span : Span) : Prop where
  span_eq : node.span = .ok span
  first : ∃ first ∈ node.leaves.head?, first.span.start = span.start
  last : ∃ last ∈ node.leaves.getLast?, last.span.stop = span.stop

/-- A node ends before another starts. -/
def Precedes (a b : Node) : Prop :=
  ∃ before behind, a.span = .ok before ∧ b.span = .ok behind ∧ before.stop ≤ behind.start

/-- A node has the span from its first token to its last, and its children are in it, one after the
other. -/
def Placed (node : Node) : Prop :=
  ∃ span, node.Reaches span ∧
    (∀ child ∈ node.children, ∃ inner, child.span = .ok inner ∧
      span.start ≤ inner.start ∧ inner.stop ≤ span.stop) ∧
    node.children.Pairwise Precedes

/-- A node whose tokens end before others start has a span. -/
theorem exists_reaches {node : Node}
    (h : node.leaves.Pairwise fun a b => a.span.stop ≤ b.span.start) :
    ∃ span, node.Reaches span := by
  obtain ⟨first, last, hfirst, hlast, hspan⟩ : ∃ first last, first ∈ node.leaves.head? ∧
      last ∈ node.leaves.getLast? ∧
      node.span = Span.ofBounds first.span.start last.span.stop := by
    cases node with
    | token item => exact ⟨item, item, rfl, rfl, (Span.ofBounds_start_stop _).symm⟩
    | expression e => exact ⟨e.first, e.last, e.head?_leaves, e.getLast?_leaves, rfl⟩
    | statement s => exact ⟨s.first, s.last, s.head?_leaves, s.getLast?_leaves, rfl⟩
  have hle : first.span.start ≤ last.span.stop := by
    have hstart := start_le_of_mem_head? h hfirst last (List.mem_of_getLast? hlast)
    exact Nat.le_trans hstart (Nat.le_add_right _ _)
  rw [Span.ofBounds_of_le hle] at hspan
  exact ⟨_, hspan, ⟨first, hfirst, rfl⟩, ⟨last, hlast, (Nat.add_sub_cancel' hle).symm⟩⟩

/-- Nodes side by side follow one another as their tokens do. -/
theorem pairwise_precedes {nodes : List Node}
    (h : (nodes.flatMap leaves).Pairwise fun a b => a.span.stop ≤ b.span.start) :
    nodes.Pairwise Precedes := by
  obtain ⟨hnodes, hpairs⟩ := List.pairwise_flatMap.mp h
  refine hpairs.imp_of_mem fun {a b} ha hb hab => ?_
  obtain ⟨before, hbefore⟩ := exists_reaches (hnodes a ha)
  obtain ⟨behind, hbehind⟩ := exists_reaches (hnodes b hb)
  obtain ⟨last, hlast, hstop⟩ := hbefore.last
  obtain ⟨first, hfirst, hstart⟩ := hbehind.first
  refine ⟨before, behind, hbefore.span_eq, hbehind.span_eq, ?_⟩
  rw [← hstop, ← hstart]
  exact hab last (List.mem_of_getLast? hlast) first (List.mem_of_head? hfirst)

/-- A node is placed if its tokens end before others start and are those of its children. -/
theorem placed_of_pairwise {node : Node}
    (h : node.leaves.Pairwise fun a b => a.span.stop ≤ b.span.start)
    (hchildren : node.children.flatMap leaves = node.leaves) : node.Placed := by
  obtain ⟨span, hspan⟩ := exists_reaches h
  obtain ⟨first, hfirst, hstart⟩ := hspan.first
  obtain ⟨last, hlast, hstop⟩ := hspan.last
  refine ⟨span, hspan, fun child hchild => ?_, pairwise_precedes (hchildren ▸ h)⟩
  have hleaves : child.leaves <:+: node.leaves :=
    hchildren ▸ isInfix_flatMap_of_mem hchild leaves
  obtain ⟨inner, hinner⟩ := exists_reaches (h.sublist hleaves.sublist)
  obtain ⟨front, hfront, hinnerStart⟩ := hinner.first
  obtain ⟨back, hback, hinnerStop⟩ := hinner.last
  refine ⟨inner, hinner.span_eq, ?_, ?_⟩
  · rw [← hstart, ← hinnerStart]
    exact start_le_of_mem_head? h hfirst front (hleaves.subset (List.mem_of_head? hfront))
  · rw [← hstop, ← hinnerStop]
    exact stop_le_of_mem_getLast? h hlast back (hleaves.subset (List.mem_of_getLast? hback))

end Node

/-! ### The nodes of a tree -/

namespace SyntaxTree

variable {tree : SyntaxTree}

/-- The statements of a tree and the end of the input behind them. -/
def children (tree : SyntaxTree) : List Node :=
  tree.statements.map .statement ++ [.token tree.endOfFile]

theorem flatMap_leaves_children (tree : SyntaxTree) :
    tree.children.flatMap Node.leaves = tree.tokens := by
  rw [children, List.flatMap_append, List.flatMap_map]
  rfl

theorem isInfix_leaves_of_mem_statementNodes {s : Statement Token}
    (h : s ∈ tree.statementNodes) : s.leaves <:+: tree.tokens := by
  obtain ⟨parent, hparent, hs⟩ := List.mem_flatMap.mp h
  have hroot : parent.leaves <:+: tree.statements.flatMap Statement.leaves :=
    isInfix_flatMap_of_mem hparent Statement.leaves
  exact ((parent.isInfix_leaves s hs).trans hroot).trans (List.prefix_append _ _).isInfix

theorem isInfix_leaves_of_mem_expressionNodes {e : Expression Token}
    (h : e ∈ tree.expressionNodes) : e.leaves <:+: tree.tokens := by
  obtain ⟨s, hs, he⟩ := List.mem_flatMap.mp h
  obtain ⟨value, hvalue, he⟩ := List.mem_flatMap.mp he
  have hstatement : value.leaves <:+: s.leaves :=
    Statement.isInfix_leaves_of_mem_value? value (Option.mem_toList.mp hvalue)
  exact ((Expression.isInfix_leaves e he).trans hstatement).trans
    (isInfix_leaves_of_mem_statementNodes hs)

theorem placed_statementNodes
    (h : tree.tokens.Pairwise fun a b => a.span.stop ≤ b.span.start) :
    ∀ s ∈ tree.statementNodes, (Node.statement s).Placed := by
  intro s hs
  have hleaves := h.sublist (isInfix_leaves_of_mem_statementNodes hs).sublist
  exact Node.placed_of_pairwise hleaves (Node.flatMap_leaves_children_statement s)

theorem placed_expressionNodes
    (h : tree.tokens.Pairwise fun a b => a.span.stop ≤ b.span.start) :
    ∀ e ∈ tree.expressionNodes, (Node.expression e).Placed := by
  intro e he
  have hleaves := h.sublist (isInfix_leaves_of_mem_expressionNodes he).sublist
  exact Node.placed_of_pairwise hleaves (Node.flatMap_leaves_children_expression e)

end SyntaxTree

/-! ### Assignments in the dump -/

/-- Whether an expression is an assignment. -/
def Expression.isAssignment {τ : Type} : Expression τ → Bool
  | assignment .. => true
  | _ => false

namespace Outline

/-- The spans that an outline shows for assignments, in order. -/
def assignmentSpans (outline : Outline) : List Span :=
  outline.filterMap fun
    | (_, .node name span) => if name = "AssignmentExpression" then some span else none
    | (_, .token _ _) => none

@[simp] theorem assignmentSpans_append (outline others : Outline) :
    assignmentSpans (outline ++ others) = outline.assignmentSpans ++ others.assignmentSpans :=
  List.filterMap_append

@[simp] theorem assignmentSpans_token (depth : Nat) (role : String) (item : Token) :
    (token depth role item).assignmentSpans = [] :=
  rfl

theorem assignmentSpans_node_of_ne {name : String} (h : name ≠ "AssignmentExpression")
    (depth : Nat) (span : Span) (children : Outline) :
    (node depth name span children).assignmentSpans = children.assignmentSpans :=
  List.filterMap_cons_none (if_neg h)

end Outline

/-- The span that is built for an assignment is its span. -/
theorem exists_span_of_assignmentOutline {depth : Nat} {name equals : Token}
    {value : Expression Token} {children rows : Outline}
    (h : assignmentOutline depth name equals value children = .ok rows) :
    ∃ span, (Expression.assignment name equals value).span = .ok span ∧
      rows.assignmentSpans = span :: children.assignmentSpans := by
  obtain ⟨inner, hinner, h⟩ := exists_of_bind_eq_ok h
  obtain ⟨span, hspan, h⟩ := exists_of_bind_eq_ok h
  cases h
  rw [Span.stop_of_ofBounds hinner] at hspan
  exact ⟨span, hspan, rfl⟩

/-- The outline of an expression shows its assignments with their spans. -/
theorem Expression.map_span_assignments {e : Expression Token} {depth : Nat} {rows : Outline}
    (h : e.outline depth = .ok rows) :
    (e.nodes.filter isAssignment).map span = rows.assignmentSpans.map .ok := by
  induction e generalizing depth rows with
  | literal value =>
    cases h
    rfl
  | identifier name =>
    cases h
    rfl
  | assignment name equals value ih =>
    obtain ⟨inner, hinner, h⟩ := exists_of_bind_eq_ok h
    obtain ⟨span, hspan, hrows⟩ := exists_span_of_assignmentOutline h
    rw [hrows, nodes, List.filter_cons_of_pos rfl, List.map_cons, List.map_cons, hspan, ih hinner]
  -- The rows of other expressions have other names, and only those of their parts count.
  | binary left operator right ihleft ihright =>
    obtain ⟨span, -, h⟩ := exists_of_bind_eq_ok h
    obtain ⟨outer, houter, h⟩ := exists_of_bind_eq_ok h
    obtain ⟨inner, hinner, h⟩ := exists_of_bind_eq_ok h
    cases h
    rw [nodes, List.filter_cons_of_neg Bool.false_ne_true, List.filter_append, List.map_append,
      ihleft houter, ihright hinner, Outline.assignmentSpans_node_of_ne (by decide)]
    simp
  | unary operator operand ih =>
    obtain ⟨span, -, h⟩ := exists_of_bind_eq_ok h
    obtain ⟨inner, hinner, h⟩ := exists_of_bind_eq_ok h
    cases h
    rw [nodes, List.filter_cons_of_neg Bool.false_ne_true, ih hinner,
      Outline.assignmentSpans_node_of_ne (by decide)]
    simp
  | parenthesized opening inner closing ih =>
    obtain ⟨span, -, h⟩ := exists_of_bind_eq_ok h
    obtain ⟨rows, hrows, h⟩ := exists_of_bind_eq_ok h
    cases h
    rw [nodes, List.filter_cons_of_neg Bool.false_ne_true, ih hrows,
      Outline.assignmentSpans_node_of_ne (by decide)]
    simp

namespace Statement

/-- The expressions that some statements are built from. -/
def expressions {τ : Type} (statements : List (Statement τ)) : List (Expression τ) :=
  statements.flatMap fun s => s.value?.toList.flatMap Expression.nodes

mutual

/-- The outline of a statement shows the assignments in it with their spans. -/
theorem map_span_assignments {depth : Nat} {rows : Outline} : (s : Statement Token) →
    s.outline depth = .ok rows →
      ((expressions s.nodes).filter Expression.isAssignment).map Expression.span =
        rows.assignmentSpans.map .ok
  | expression value semicolon, h => by
    obtain ⟨span, -, h⟩ := exists_of_bind_eq_ok h
    obtain ⟨inner, hinner, h⟩ := exists_of_bind_eq_ok h
    cases h
    rw [Outline.assignmentSpans_node_of_ne (by decide)]
    simpa [expressions, nodes, value?] using Expression.map_span_assignments hinner
  | block opening body closing, h => by
    obtain ⟨span, -, h⟩ := exists_of_bind_eq_ok h
    obtain ⟨inner, hinner, h⟩ := exists_of_bind_eq_ok h
    cases h
    rw [Outline.assignmentSpans_node_of_ne (by decide)]
    simpa [expressions, nodes, value?] using map_span_assignmentsOfAll body hinner
  | declaration type name semicolon, h => by
    obtain ⟨span, -, h⟩ := exists_of_bind_eq_ok h
    cases h
    rw [Outline.assignmentSpans_node_of_ne (by decide)]
    rfl
  | initialization type name equals value semicolon, h => by
    obtain ⟨span, -, h⟩ := exists_of_bind_eq_ok h
    obtain ⟨inner, hinner, h⟩ := exists_of_bind_eq_ok h
    obtain ⟨outer, houter, h⟩ := exists_of_bind_eq_ok h
    cases h
    obtain ⟨whole, hwhole, hrows⟩ := exists_span_of_assignmentOutline houter
    simp only [expressions, nodes, value?, List.flatMap_singleton, Option.toList_some,
      Expression.nodes]
    rw [List.filter_cons_of_pos rfl, List.map_cons, hwhole, Expression.map_span_assignments hinner,
      Outline.assignmentSpans_node_of_ne (by decide)]
    simp [hrows]

/-- The outline of some statements shows the assignments in them with their spans. -/
theorem map_span_assignmentsOfAll {depth : Nat} {rows : Outline} :
    (statements : List (Statement Token)) → outlineOfAll depth statements = .ok rows →
      ((expressions (nodesOfAll statements)).filter Expression.isAssignment).map Expression.span =
        rows.assignmentSpans.map .ok
  | [], h => by
    cases h
    rfl
  | statement :: others, h => by
    obtain ⟨inner, hinner, h⟩ := exists_of_bind_eq_ok h
    obtain ⟨below, hbelow, h⟩ := exists_of_bind_eq_ok h
    cases h
    have hfirst := map_span_assignments statement hinner
    have hothers := map_span_assignmentsOfAll others hbelow
    rw [expressions] at hfirst hothers ⊢
    rw [nodesOfAll, List.flatMap_append, List.filter_append, List.map_append, hfirst, hothers,
      Outline.assignmentSpans_append, List.map_append]

end

end Statement

end LosslessSyntax
