import LosslessSyntax.Diagnostic.Basic

/-!
# Events

What a run tells about its progress. Events of two levels are told: those for debugging with one
flag for verbosity, those that trace every stage with two or more. How an event is written in the
log is for the program around a run to say.
-/

namespace LosslessSyntax

/-- How much detail an event gives. -/
inductive Level
  | debug
  | trace
deriving DecidableEq, Repr

/-- The least verbosity at which events of a level are told. -/
def Level.threshold : Level → Nat
  | debug => 1
  | trace => 2

/-- A step of a run. -/
inductive Event
  /-- An input was read. -/
  | sourceRead (name : String) (bytes lines : Nat)
  /-- An input was divided into tokens. -/
  | lexed (tokens bytes : Nat)
  /-- A token took the place of a missing one. -/
  | tokenMissing (error : ParseError)
  /-- The tokens of an input were parsed. -/
  | parsed (statements diagnostics : Nat)
deriving DecidableEq, Repr

namespace Event

/-- The level of an event. -/
def level : Event → Level
  | sourceRead .. => .debug
  | lexed .. => .trace
  | tokenMissing _ => .debug
  | parsed .. => .trace

/-- The lines of the events that are told at a verbosity. -/
def log (render : Event → String) (verbosity : Nat) (events : List Event) : List String :=
  (events.filter fun event => event.level.threshold ≤ verbosity).map render

end Event

end LosslessSyntax
