/-!
# Invocations

What is asked for: an action, the files it is done with, at most one program that is given by
itself, and a verbosity.
-/

namespace LosslessSyntax

/-- What to do with the inputs. -/
inductive Action
  /-- Show the tokens. -/
  | tokens
  /-- Show the tree and report the diagnostics. -/
  | tree
  /-- Report the diagnostics, and fail if there are any. -/
  | check
deriving DecidableEq, Repr

/-- What the command line asks for. -/
structure Invocation where
  action : Action
  verbosity : Nat
  program : Option String
  files : List String
deriving DecidableEq, Repr

end LosslessSyntax
