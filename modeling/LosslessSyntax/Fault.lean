/-!
# Faults

Some questions have no answer: the span between two positions in the wrong order, the character at
the end of a text, the slice that cuts a character in two, a sum that is greater than any word. An
operation that can meet such a question answers in `Except Fault`. Two of the faults have a wording
of their own.
-/

namespace LosslessSyntax

/-- Why a question has no answer. -/
inductive Fault
  /-- A span would end before it starts. -/
  | reversedSpan
  /-- A character was asked for at the very end of a text. -/
  | noCharAt (position : Nat)
  /-- An index or a position lies outside of what it refers to, or inside a character. -/
  | outOfRange
  /-- A sum is greater than the greatest word. -/
  | overflow
deriving DecidableEq, Repr

/-- The wording of a fault, for those that have one. -/
def Fault.message? : Fault → Option String
  | reversedSpan => some "span end before start"
  | noCharAt position => some s!"position {position} out of range"
  | outOfRange | overflow => none

end LosslessSyntax
