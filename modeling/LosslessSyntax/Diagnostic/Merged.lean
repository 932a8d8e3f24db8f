import LosslessSyntax.Diagnostic.Lexical
import LosslessSyntax.Tree.Basic

/-!
# All diagnostics of a program

`diagnostics` puts the errors of the text and those of its tree into one list, by their starts. Of
two that start at the same place, the error of the text comes first.
-/

namespace LosslessSyntax

/-- The errors in a stream of tokens and in the tree that it was parsed into, by their starts. -/
def diagnostics (tokens : List Token) (tree : SyntaxTree) : List Diagnostic :=
  ((lexicalErrors tokens).map Diagnostic.lexical ++
    tree.diagnostics.map Diagnostic.grammatical).mergeSort
    fun a b => a.span.start ≤ b.span.start

end LosslessSyntax
