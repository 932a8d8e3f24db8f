import LosslessSyntax.Token.Basic
import LosslessSyntax.Token.Lexeme

/-!
# The tokens of a text

`tokenize` divides a text into tokens. The trivia at the very front belongs to the first token; all
other trivia belongs to the token before it. The last token is the end of the input, which has
trivia only in a text that is nothing but trivia. A lexeme depends on the text from its start on and
on the one character before it.
-/

namespace LosslessSyntax

namespace Token

/-- The token that a lexeme at a position makes, with the trivia on both sides. -/
def ofCut (position : Nat) (cut : Cut TokenKind) (leading trailing : List Trivia) : Token where
  kind := cut.kind
  value := String.ofList cut.piece
  span := ⟨position, byteLength cut.piece⟩
  leading := leading
  trailing := trailing

/-- The tokens of a text that stands at a position, after a character and after the trivia that
belongs to its first token. -/
def scan (leading : List Trivia) (before : Option Char) (position : Nat) : List Char → List Token
  | [] => [{ endAt position with leading := leading }]
  | c :: cs =>
    let lexeme := Lexeme.next before c cs
    let stop := position + byteLength lexeme.piece
    let gap := Gap.scan stop lexeme.rest
    ofCut position lexeme leading gap.items ::
      scan [] (lexeme.piece ++ gap.piece).getLast? (stop + byteLength gap.piece) gap.rest
termination_by cs => cs.length
decreasing_by
  have := Lexeme.length_rest_le before c cs
  exact Nat.lt_succ_of_le (Nat.le_trans (Gap.length_rest_le _ _) this)

end Token

/-- The tokens of a text. -/
def tokenize (text : String) : List Token :=
  let gap := Gap.scan 0 text.toList
  Token.scan gap.items gap.piece.getLast? (byteLength gap.piece) gap.rest

end LosslessSyntax
