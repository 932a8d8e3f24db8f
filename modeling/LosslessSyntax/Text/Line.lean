import LosslessSyntax.Text.Bytes
import LosslessSyntax.Text.Span

/-!
# Lines

A line ends at a line feed, at a carriage return, or at the two in this order, which count as one
break. `Line.ofText` divides a text into its lines; the last of them has no break, so that every
text has a line. `LinePosition` names a place by its line and the bytes before it on this line.
-/

namespace LosslessSyntax

/-- Whether a character is one of the two that make up line breaks. -/
def isBreak (c : Char) : Bool :=
  c = '\r' || c = '\n'

/-- A line of a text: where it starts, and its length without and with its break. -/
structure Line where
  start : Nat
  length : Nat
  lengthWithBreak : Nat
deriving DecidableEq, Repr

namespace Line

/-- The offset just after the text of a line, before its break. -/
def stop (line : Line) : Nat :=
  line.start + line.length

/-- The span of a line without its break. -/
def span (line : Line) : Span :=
  ⟨line.start, line.length⟩

/-- The span of a line and its break. -/
def spanWithBreak (line : Line) : Span :=
  ⟨line.start, line.lengthWithBreak⟩

/-- The lines of a text that goes on with a line begun at `start`, after its first `length` bytes.
-/
def scan (start length : Nat) : List Char → List Line
  | [] => [⟨start, length, length⟩]
  | '\r' :: '\n' :: cs => ⟨start, length, length + 2⟩ :: scan (start + (length + 2)) 0 cs
  | '\r' :: cs => ⟨start, length, length + 1⟩ :: scan (start + (length + 1)) 0 cs
  | '\n' :: cs => ⟨start, length, length + 1⟩ :: scan (start + (length + 1)) 0 cs
  | c :: cs => scan start (length + c.utf8Size) cs

/-- The lines of a text. -/
def ofText (cs : List Char) : List Line :=
  scan 0 0 cs

/-- Every text has a line. -/
theorem scan_ne_nil (start length : Nat) (cs : List Char) : scan start length cs ≠ [] := by
  fun_induction scan start length cs <;> simp_all

end Line

/-- A place in a text: its line and the bytes before it on this line, both counted from zero. -/
structure LinePosition where
  line : Nat
  column : Nat
deriving DecidableEq, Repr

/-- Lines and columns are shown counted from one. -/
instance : ToString LinePosition :=
  ⟨fun position => s!"{position.line + 1}:{position.column + 1}"⟩

end LosslessSyntax
