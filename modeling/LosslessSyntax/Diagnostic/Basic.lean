import LosslessSyntax.Text.Quoted
import LosslessSyntax.Text.Span
import LosslessSyntax.Token.Kind

/-!
# Diagnostics

What can be wrong with a program: a character that starts no token, a block comment that is never
closed, and a token of a kind other than those expected in its place. Each is reported with the span
of the text that it is about, and its message ends with this span.
-/

namespace LosslessSyntax

/-- What can be wrong with a text before it is parsed. -/
inductive LexicalFlaw
  /-- A character starts no token. -/
  | unexpectedCharacter (c : Char)
  /-- A block comment is never closed. -/
  | unterminatedComment
deriving DecidableEq, Repr

/-- A flaw of the text, and where it is. -/
structure LexicalError where
  flaw : LexicalFlaw
  span : Span
deriving DecidableEq, Repr

/-- A token of one of the kinds `expected` had to come, and one of the kind `found` came. -/
structure ParseError where
  expected : List TokenKind
  found : TokenKind
  span : Span
deriving DecidableEq, Repr

/-- An error in the text or in the arrangement of its tokens. -/
inductive Diagnostic
  | lexical (error : LexicalError)
  | grammatical (error : ParseError)
deriving DecidableEq, Repr

/-- The message of a flaw. -/
def LexicalFlaw.message : LexicalFlaw → String
  | unexpectedCharacter c => "unexpected character: " ++ quotedChar c
  | unterminatedComment => "unterminated block comment"

/-- The message of an error, with its place. -/
def LexicalError.message (error : LexicalError) : String :=
  error.flaw.message ++ " at " ++ toString error.span

/-- What was expected and what was found. -/
def ParseError.reason (error : ParseError) : String :=
  "expected " ++ " or ".intercalate (error.expected.map toString) ++ ", got " ++
    toString error.found

/-- The message of an error, with its place. -/
def ParseError.message (error : ParseError) : String :=
  error.reason ++ " at " ++ toString error.span

namespace Diagnostic

/-- The text that a diagnostic is about. -/
def span : Diagnostic → Span
  | lexical error => error.span
  | grammatical error => error.span

/-- What is wrong, without its place. -/
def reason : Diagnostic → String
  | lexical error => error.flaw.message
  | grammatical error => error.reason

/-- The message of a diagnostic, with its place. -/
def message : Diagnostic → String
  | lexical error => error.message
  | grammatical error => error.message

end Diagnostic

end LosslessSyntax
