import LosslessSyntax.Token.Kind

/-!
# Operators

Operators of more than one character come from the lexer in single characters. `compoundOperators`
lists their spellings; where two of them fit, the first in the list is meant, and a spelling stands
before those that it begins with.

The higher the precedence of an operator, the more tightly it binds. Kinds that are no operators of
the sort have precedence zero.
-/

namespace LosslessSyntax

/-- The operators of several tokens, with the kinds that spell them. -/
def compoundOperators : List (List TokenKind × TokenKind) :=
  [([.lessThanSign, .lessThanSign, .lessThanSign], .lessThanLessThanLessThan),
   ([.equals, .equals], .equalsEquals),
   ([.exclamationMark, .equals], .exclamationEquals),
   ([.lessThanSign, .lessThanSign], .lessThanLessThan),
   ([.greaterThanSign, .greaterThanSign], .greaterThanGreaterThan),
   ([.lessThanSign, .equals], .lessThanEquals),
   ([.greaterThanSign, .equals], .greaterThanEquals),
   ([.ampersand, .ampersand], .ampersandAmpersand),
   ([.verticalBar, .verticalBar], .verticalBarVerticalBar)]

/-- How tightly an operator before its operand binds. -/
def unaryPrecedence : TokenKind → Nat
  | .plus | .minus | .exclamationMark => 6
  | _ => 0

/-- How tightly an operator between its operands binds. -/
def binaryPrecedence : TokenKind → Nat
  | .asterisk | .forwardSlash => 5
  | .plus | .minus => 4
  | .equalsEquals | .exclamationEquals => 3
  | .ampersandAmpersand => 2
  | .verticalBarVerticalBar => 1
  | _ => 0

/-- The kinds of literals. -/
def literalKinds : List TokenKind :=
  [.integer, .float, .string, .char]

end LosslessSyntax
