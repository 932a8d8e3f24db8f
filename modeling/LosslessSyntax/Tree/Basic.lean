import LosslessSyntax.Diagnostic.Basic
import LosslessSyntax.Token.Basic

/-!
# Syntax trees

Expressions and statements, over whatever stands at their leaves: tokens in a finished tree, and
what the parser made of the tokens while it builds one. Every piece of the source is a leaf, so that
the leaves in order (`Expression.leaves`, `Statement.leaves`) are the tokens of the tree.

`SyntaxTree` is the result of parsing: statements, the token at the end of the input, and a list of
errors. Its full text is that of its tokens.
-/

namespace LosslessSyntax

/-- An expression with leaves in `τ`. -/
inductive Expression (τ : Type)
  /-- An integer, a float, a string or a character. -/
  | literal (value : τ)
  | identifier (name : τ)
  /-- An assignment, written `name = value`. -/
  | assignment (name equals : τ) (value : Expression τ)
  | binary (left : Expression τ) (operator : τ) (right : Expression τ)
  | unary (operator : τ) (operand : Expression τ)
  | parenthesized (opening : τ) (inner : Expression τ) (closing : τ)
deriving DecidableEq, Repr

/-- A statement with leaves in `τ`. -/
inductive Statement (τ : Type)
  /-- An expression, written `value;`. -/
  | expression (value : Expression τ) (semicolon : τ)
  /-- Statements between braces. -/
  | block (opening : τ) (body : List (Statement τ)) (closing : τ)
  /-- A declaration, written `type name;`. -/
  | declaration (type name semicolon : τ)
  /-- A declaration with a value, written `type name = value;`. -/
  | initialization (type name equals : τ) (value : Expression τ) (semicolon : τ)
deriving Repr

namespace Expression

/-- The leaves of an expression in order. -/
def leaves {τ : Type} : Expression τ → List τ
  | literal value => [value]
  | identifier name => [name]
  | assignment name equals value => name :: equals :: value.leaves
  | binary left operator right => left.leaves ++ operator :: right.leaves
  | unary operator operand => operator :: operand.leaves
  | parenthesized opening inner closing => opening :: (inner.leaves ++ [closing])

/-- Changes every leaf. -/
def map {τ υ : Type} (f : τ → υ) : Expression τ → Expression υ
  | literal value => literal (f value)
  | identifier name => identifier (f name)
  | assignment name equals value => assignment (f name) (f equals) (value.map f)
  | binary left operator right => binary (left.map f) (f operator) (right.map f)
  | unary operator operand => unary (f operator) (operand.map f)
  | parenthesized opening inner closing => parenthesized (f opening) (inner.map f) (f closing)

@[simp] theorem leaves_map {τ υ : Type} (f : τ → υ) (e : Expression τ) :
    (e.map f).leaves = e.leaves.map f := by
  induction e <;> simp [map, leaves, *]

theorem map_map {σ τ υ : Type} (g : τ → υ) (f : σ → τ) (e : Expression σ) :
    (e.map f).map g = e.map fun leaf => g (f leaf) := by
  induction e <;> simp [map, *]

/-- A map that leaves every leaf as it is leaves the expression as it is. -/
theorem map_eq_self {τ : Type} {f : τ → τ} {e : Expression τ}
    (h : ∀ leaf ∈ e.leaves, f leaf = leaf) : e.map f = e := by
  induction e <;> simp_all [map, leaves]

/-- The first leaf of an expression. -/
def first {τ : Type} : Expression τ → τ
  | literal value => value
  | identifier name => name
  | assignment name _ _ => name
  | binary left _ _ => left.first
  | unary operator _ => operator
  | parenthesized opening _ _ => opening

/-- The last leaf of an expression. -/
def last {τ : Type} : Expression τ → τ
  | literal value => value
  | identifier name => name
  | assignment _ _ value => value.last
  | binary _ _ right => right.last
  | unary _ operand => operand.last
  | parenthesized _ _ closing => closing

theorem head?_leaves {τ : Type} (e : Expression τ) : e.leaves.head? = some e.first := by
  induction e <;> simp [leaves, first, *]

theorem getLast?_leaves {τ : Type} (e : Expression τ) : e.leaves.getLast? = some e.last := by
  induction e <;> simp [leaves, last, List.getLast?_cons, *]

end Expression

namespace Statement

mutual

/-- The leaves of a statement in order. -/
def leaves {τ : Type} : Statement τ → List τ
  | expression value semicolon => value.leaves ++ [semicolon]
  | block opening body closing => opening :: (leavesOfAll body ++ [closing])
  | declaration type name semicolon => [type, name, semicolon]
  | initialization type name equals value semicolon =>
    type :: name :: equals :: (value.leaves ++ [semicolon])

/-- The leaves of some statements in order. -/
def leavesOfAll {τ : Type} : List (Statement τ) → List τ
  | [] => []
  | statement :: others => leaves statement ++ leavesOfAll others

end

mutual

/-- Changes every leaf. -/
def map {τ υ : Type} (f : τ → υ) : Statement τ → Statement υ
  | expression value semicolon => expression (value.map f) (f semicolon)
  | block opening body closing => block (f opening) (mapAll f body) (f closing)
  | declaration type name semicolon => declaration (f type) (f name) (f semicolon)
  | initialization type name equals value semicolon =>
    initialization (f type) (f name) (f equals) (value.map f) (f semicolon)

/-- Changes every leaf of some statements. -/
def mapAll {τ υ : Type} (f : τ → υ) : List (Statement τ) → List (Statement υ)
  | [] => []
  | statement :: others => map f statement :: mapAll f others

end

theorem leavesOfAll_eq_flatMap {τ : Type} (statements : List (Statement τ)) :
    leavesOfAll statements = statements.flatMap leaves := by
  induction statements with
  | nil => rfl
  | cons statement others ih => rw [leavesOfAll, ih, List.flatMap_cons]

theorem mapAll_eq_map {τ υ : Type} (f : τ → υ) (statements : List (Statement τ)) :
    mapAll f statements = statements.map (map f) := by
  induction statements with
  | nil => rfl
  | cons statement others ih => rw [mapAll, ih, List.map_cons]

mutual

@[simp] theorem leaves_map {τ υ : Type} (f : τ → υ) :
    (s : Statement τ) → (s.map f).leaves = s.leaves.map f
  | expression value semicolon => by simp [map, leaves]
  | block opening body closing => by simp [map, leaves, leavesOfAll_mapAll f body]
  | declaration type name semicolon => rfl
  | initialization type name equals value semicolon => by simp [map, leaves]

@[simp] theorem leavesOfAll_mapAll {τ υ : Type} (f : τ → υ) :
    (statements : List (Statement τ)) →
      leavesOfAll (mapAll f statements) = (leavesOfAll statements).map f
  | [] => rfl
  | statement :: others => by
    simp [mapAll, leavesOfAll, leaves_map f statement, leavesOfAll_mapAll f others]

end

mutual

theorem map_map {σ τ υ : Type} (g : τ → υ) (f : σ → τ) :
    (s : Statement σ) → (s.map f).map g = s.map fun leaf => g (f leaf)
  | expression value semicolon => by simp [map, Expression.map_map]
  | block opening body closing => by simp [map, mapAll_mapAll g f body]
  | declaration type name semicolon => rfl
  | initialization type name equals value semicolon => by simp [map, Expression.map_map]

theorem mapAll_mapAll {σ τ υ : Type} (g : τ → υ) (f : σ → τ) :
    (statements : List (Statement σ)) →
      mapAll g (mapAll f statements) = mapAll (fun leaf => g (f leaf)) statements
  | [] => rfl
  | statement :: others => by simp [mapAll, map_map g f statement, mapAll_mapAll g f others]

end

mutual

/-- A map that leaves every leaf as it is leaves the statement as it is. -/
theorem map_eq_self {τ : Type} {f : τ → τ} :
    (s : Statement τ) → (∀ leaf ∈ s.leaves, f leaf = leaf) → s.map f = s
  | expression value semicolon, h => by
    simp only [leaves, List.forall_mem_append, List.forall_mem_singleton] at h
    rw [map, Expression.map_eq_self h.1, h.2]
  | block opening body closing, h => by
    simp only [leaves, List.forall_mem_cons, List.forall_mem_append] at h
    rw [map, mapAll_eq_self body h.2.1, h.1, h.2.2.1]
  | declaration type name semicolon, h => by
    simp only [leaves, List.forall_mem_cons] at h
    rw [map, h.1, h.2.1, h.2.2.1]
  | initialization type name equals value semicolon, h => by
    simp only [leaves, List.forall_mem_cons, List.forall_mem_append] at h
    rw [map, Expression.map_eq_self h.2.2.2.1, h.1, h.2.1, h.2.2.1, h.2.2.2.2.1]

/-- A map that leaves every leaf as it is leaves the statements as they are. -/
theorem mapAll_eq_self {τ : Type} {f : τ → τ} :
    (statements : List (Statement τ)) →
      (∀ leaf ∈ leavesOfAll statements, f leaf = leaf) → mapAll f statements = statements
  | [], _ => rfl
  | statement :: others, h => by
    simp only [leavesOfAll, List.forall_mem_append] at h
    rw [mapAll, map_eq_self statement h.1, mapAll_eq_self others h.2]

end

/-- The first leaf of a statement. -/
def first {τ : Type} : Statement τ → τ
  | expression value _ => value.first
  | block opening _ _ => opening
  | declaration type _ _ => type
  | initialization type _ _ _ _ => type

/-- The last leaf of a statement. -/
def last {τ : Type} : Statement τ → τ
  | expression _ semicolon => semicolon
  | block _ _ closing => closing
  | declaration _ _ semicolon => semicolon
  | initialization _ _ _ _ semicolon => semicolon

theorem head?_leaves {τ : Type} (s : Statement τ) : s.leaves.head? = some s.first := by
  cases s <;> simp [leaves, first, Expression.head?_leaves]

theorem getLast?_leaves {τ : Type} (s : Statement τ) : s.leaves.getLast? = some s.last := by
  cases s <;> simp [leaves, last, List.getLast?_cons]

mutual

/-- Equality of statements is decided leaf by leaf. -/
def decEq {τ : Type} [DecidableEq τ] : (s t : Statement τ) → Decidable (s = t)
  | expression e₁ x₁, expression e₂ x₂ => decidable_of_iff (e₁ = e₂ ∧ x₁ = x₂) (by simp)
  | block x₁ b₁ y₁, block x₂ b₂ y₂ =>
    have := decEqAll b₁ b₂
    decidable_of_iff (x₁ = x₂ ∧ b₁ = b₂ ∧ y₁ = y₂) (by simp)
  | declaration x₁ y₁ z₁, declaration x₂ y₂ z₂ =>
    decidable_of_iff (x₁ = x₂ ∧ y₁ = y₂ ∧ z₁ = z₂) (by simp)
  | initialization x₁ y₁ z₁ e₁ w₁, initialization x₂ y₂ z₂ e₂ w₂ =>
    decidable_of_iff (x₁ = x₂ ∧ y₁ = y₂ ∧ z₁ = z₂ ∧ e₁ = e₂ ∧ w₁ = w₂) (by simp)
  | expression .., block .. | expression .., declaration .. | expression .., initialization ..
  | block .., expression .. | block .., declaration .. | block .., initialization ..
  | declaration .., expression .. | declaration .., block .. | declaration .., initialization ..
  | initialization .., expression .. | initialization .., block ..
  | initialization .., declaration .. => isFalse nofun

/-- Equality of lists of statements is decided leaf by leaf. -/
def decEqAll {τ : Type} [DecidableEq τ] : (ss ts : List (Statement τ)) → Decidable (ss = ts)
  | [], [] => isTrue rfl
  | [], _ :: _ | _ :: _, [] => isFalse nofun
  | s :: ss, t :: ts =>
    have := decEq s t
    have := decEqAll ss ts
    decidable_of_iff (s = t ∧ ss = ts) (by simp)

end

instance {τ : Type} [DecidableEq τ] : DecidableEq (Statement τ) :=
  decEq

end Statement

/-- The span of an expression: from the start of its first token to the end of its last, without the
trivia around them. -/
def Expression.span (e : Expression Token) : Except Fault Span :=
  Span.ofBounds e.first.span.start e.last.span.stop

/-- The span of a statement: from the start of its first token to the end of its last, without the
trivia around them. -/
def Statement.span (s : Statement Token) : Except Fault Span :=
  Span.ofBounds s.first.span.start s.last.span.stop

/-- What a stream of tokens was parsed into. -/
structure SyntaxTree where
  statements : List (Statement Token)
  endOfFile : Token
  diagnostics : List ParseError
deriving DecidableEq, Repr

namespace SyntaxTree

/-- The tokens of a tree in order, the end of the input last. -/
def tokens (tree : SyntaxTree) : List Token :=
  tree.statements.flatMap Statement.leaves ++ [tree.endOfFile]

/-- The text that the tokens of a tree and their trivia spell. -/
def fullText (tree : SyntaxTree) : String :=
  LosslessSyntax.fullText tree.tokens

/-- Whether an error was found. -/
def hasErrors (tree : SyntaxTree) : Bool :=
  !tree.diagnostics.isEmpty

end SyntaxTree

end LosslessSyntax
