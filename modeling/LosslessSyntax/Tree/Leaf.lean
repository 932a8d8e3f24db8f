import LosslessSyntax.Tree.Basic
import LosslessSyntax.Tree.Operator

/-!
# What becomes of the tokens

The parser asks of a token no more than its kind, and of two neighbours whether they touch;
`Readable` is the class of types that answer. It makes a leaf of each token: the token as it is, the
token in the place of a missing one, together with the kinds that were expected there, or several
tokens merged into an operator. A leaf keeps the tokens that went into it (`Leaf.parts`), hence none
is lost on the way to the tree.

`Leaf.token` is the token that a leaf puts into the tree. A token that comes where others were
expected is recorded beside the tree, as `Unexpected`; `Unexpected.error` is the error that reports
it.
-/

namespace LosslessSyntax

/-- What a grammar asks of tokens: the kind of each, and whether one touches the next. -/
class Readable (α : Type) where
  kind : α → TokenKind
  touches : α → α → Bool

export Readable (kind touches)

instance : Readable Token where
  kind := Token.kind
  touches := Token.touches

/-- A leaf of a tree, with the tokens that it is made of. -/
inductive Leaf (α : Type)
  /-- A token as it is. -/
  | plain (token : α)
  /-- A token where one of other kinds was expected. -/
  | missing (expected : List TokenKind) (token : α)
  /-- An operator of the given kind, spelled by several tokens. -/
  | merged (operator : TokenKind) (first : α) (others : List α)
deriving DecidableEq, Repr

namespace Leaf

variable {α : Type}

/-- The tokens that a leaf is made of. -/
def parts : Leaf α → List α
  | plain token => [token]
  | missing _ token => [token]
  | merged _ first others => first :: others

/-- The kind of a leaf in the tree. -/
def kind [Readable α] : Leaf α → TokenKind
  | plain token => Readable.kind token
  | missing _ _ => .missingToken
  | merged operator _ _ => operator

/-- The token that a leaf puts into the tree. A merged operator is written in its own way, starts
where its first token does, and has the trivia around all of its tokens. -/
def token : Leaf Token → Token
  | plain token => token
  | missing _ token => token.toMissing
  | merged operator first others =>
    let value := operator.text?.getD ""
    { kind := operator
      value := value
      span := ⟨first.span.start, value.utf8ByteSize⟩
      leading := first.leading
      trailing := (others.getLastD first).trailing }

theorem parts_ne_nil (leaf : Leaf α) : leaf.parts ≠ [] := by
  cases leaf <;> simp [parts]

/-- The token of a leaf has the kind of the leaf. -/
theorem kind_token (leaf : Leaf Token) : leaf.token.kind = leaf.kind := by
  cases leaf <;> rfl

end Leaf

/-- A token that came where one of other kinds was expected. -/
structure Unexpected (α : Type) where
  expected : List TokenKind
  found : α
deriving DecidableEq, Repr

/-- The error that reports an unexpected token. -/
def Unexpected.error (unexpected : Unexpected Token) : ParseError :=
  ⟨unexpected.expected, unexpected.found.kind, unexpected.found.span⟩

end LosslessSyntax
