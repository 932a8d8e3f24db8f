import LosslessSyntax.Diagnostic.Lexical
import LosslessSyntax.Token.Stream
import LosslessSyntax.Tree.Parser

/-!
# Strict parsing

`parseStrict` takes a program from its text to its tree and accepts no error: the errors of the text
are looked at before those of the tree, and the first one is the answer.
-/

namespace LosslessSyntax

/-- The tree of a program without errors, or its first error. -/
def parseStrict (text : String) : Except Fault (Except Diagnostic SyntaxTree) :=
  let tokens := tokenize text
  match lexicalErrors tokens with
  | error :: _ => .ok (.error (.lexical error))
  | [] => do
    let tree ← parse tokens
    match tree.diagnostics with
    | error :: _ => return .error (.grammatical error)
    | [] => return .ok tree

end LosslessSyntax
