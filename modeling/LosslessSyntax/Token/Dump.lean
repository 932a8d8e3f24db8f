import LosslessSyntax.Text.Quoted
import LosslessSyntax.Token.Basic

/-!
# The token dump

A stream is shown with one token a line: its kind, its text between quotes, its span, and the kinds
and texts of its trivia where it has any. Since quoted text has no line breaks, the lines are the
tokens.
-/

namespace LosslessSyntax

/-- An item of trivia by its kind and its text. -/
def Trivia.describe (item : Trivia) (plain : Char → Bool := Quoted.isPlain) : String :=
  item.kind.name ++ " " ++ quotedString item.text plain

/-- A list of trivia under a label, or nothing where there is none. -/
def describeTrivia (label : String) (items : List Trivia)
    (plain : Char → Bool := Quoted.isPlain) : String :=
  if items.isEmpty then ""
  else " " ++ label ++ "=[" ++ ", ".intercalate (items.map fun item => item.describe plain) ++ "]"

/-- A token by its kind, its text and its span. -/
def Token.describe (token : Token) (plain : Char → Bool := Quoted.isPlain) : String :=
  token.kind.name ++ " " ++ quotedString token.value plain ++ " " ++ toString token.span

/-- The line of a token in the dump of its stream. -/
def Token.dumpLine (token : Token) (plain : Char → Bool := Quoted.isPlain) : String :=
  token.describe plain ++ describeTrivia "leading" token.leading plain ++
    describeTrivia "trailing" token.trailing plain ++ "\n"

/-- The dump of a stream of tokens. -/
def dumpTokens (tokens : List Token) (plain : Char → Bool := Quoted.isPlain) : String :=
  String.join (tokens.map fun token => token.dumpLine plain)

end LosslessSyntax
