import LosslessSyntax.Command.Event

/-!
# Log lines

How an event is written on the standard error output: its level, the part of the program that it
belongs to, and what it says, with its data after the names of its fields. The time is left out.
-/

namespace LosslessSyntax

/-- The name of a level. -/
def Level.name : Level → String
  | debug => "DEBUG"
  | trace => "TRACE"

namespace Event

/-- The part of the program that an event belongs to. -/
def target : Event → String
  | sourceRead .. => "maho"
  | lexed .. => "maho_syntax::lexer"
  | tokenMissing _ => "maho_syntax::parser"
  | parsed .. => "maho_syntax::parser"

/-- What an event says. -/
def message : Event → String
  | sourceRead name bytes lines => s!"read source input={name} bytes={bytes} lines={lines}"
  | lexed tokens bytes => s!"lexed source tokens={tokens} bytes={bytes}"
  | tokenMissing error => "synthesized missing token error=" ++ error.message
  | parsed statements diagnostics =>
    s!"parsed token stream statements={statements} diagnostics={diagnostics}"

/-- The line that tells an event. -/
def line (event : Event) : String :=
  event.level.name ++ " " ++ event.target ++ ": " ++ event.message

end Event

end LosslessSyntax
