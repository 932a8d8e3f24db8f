import LosslessSyntax.Diagnostic.Basic
import LosslessSyntax.Token.Basic

/-!
# The errors in a stream of tokens

The lexer never stops at an error: it leaves a bad token, or a block comment without its end.
`lexicalErrors` finds both in a finished stream and lists them in the order of their starts.
-/

namespace LosslessSyntax

/-- Whether the text of a block comment has its end. An opening that is followed by a slash is not
an end: opening and end take four bytes. -/
def isClosedComment (text : String) : Bool :=
  4 ≤ text.utf8ByteSize && ['*', '/'].isSuffixOf text.toList

namespace Trivia

/-- The error in an item of trivia: a block comment that is never closed. -/
def error? (item : Trivia) : Option LexicalError :=
  if item.kind = .multiLineComment && !isClosedComment item.text then
    some ⟨.unterminatedComment, item.span⟩
  else none

end Trivia

namespace Token

/-- The error in the text of a token: a character that starts no token. -/
def ownError? (token : Token) : Option LexicalError :=
  if token.kind = .badToken then
    some ⟨.unexpectedCharacter (token.value.toList.headD '\x00'), token.span⟩
  else none

/-- The errors in a token and in the trivia on both sides of it, those of the trivia first. -/
def errors (token : Token) : List LexicalError :=
  (token.leading ++ token.trailing).filterMap Trivia.error? ++ token.ownError?.toList

end Token

/-- The errors in a stream of tokens, by their starts. -/
def lexicalErrors (tokens : List Token) : List LexicalError :=
  (tokens.flatMap Token.errors).mergeSort fun a b => a.span.start ≤ b.span.start

end LosslessSyntax
