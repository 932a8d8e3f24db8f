import LosslessSyntax.Text.Line
import LosslessSyntax.Text.PartitionPoint

/-!
# Sources

A source is a text together with the table of its lines. `Source.lineIndex` finds the line of a
position by bisection, and `Source.linePosition` the column as well; both answer for every position,
also past the end of the text. `Source.charAt`, `Source.slice` and `Source.line` refuse a position
or an index outside of the text.
-/

namespace LosslessSyntax

/-- A text with the table of its lines. -/
structure Source where
  text : String
  lines : Array Line := (Line.ofText text.toList).toArray
  lines_eq : lines = (Line.ofText text.toList).toArray := by rfl
deriving DecidableEq

namespace Source

/-- The source with a given text. -/
def ofString (text : String) : Source :=
  { text }

/-- The length of a source in bytes. -/
def length (source : Source) : Nat :=
  source.text.utf8ByteSize

/-- Whether a source has no text. -/
def isEmpty (source : Source) : Bool :=
  source.text.isEmpty

/-- The character that starts at a position. -/
def charAt (source : Source) (position : Nat) : Except Fault Char :=
  match dropBytes? position source.text.toList with
  | none => .error .outOfRange
  | some [] => .error (.noCharAt position)
  | some (c :: _) => .ok c

/-- The text that a span covers. -/
def slice (source : Source) (span : Span) : Except Fault String :=
  match (dropBytes? span.start source.text.toList).bind (takeBytes? span.length) with
  | none => .error .outOfRange
  | some cs => .ok (String.ofList cs)

/-- The line with a given index. -/
def line (source : Source) (index : Nat) : Except Fault Line :=
  match source.lines[index]? with
  | none => .error .outOfRange
  | some line => .ok line

/-- The text of the line with a given index, without its break. -/
def lineText (source : Source) (index : Nat) : Except Fault String := do
  source.slice (← source.line index).span

/-- Every source has a line. -/
theorem lines_size_pos (source : Source) : 0 < source.lines.size := by
  rw [source.lines_eq, List.size_toArray, List.length_pos_iff]
  exact Line.scan_ne_nil 0 0 _

/-- The index of the last line that starts at or before a position. -/
def lineIndex (source : Source) (position : Nat) : Nat :=
  partitionPoint (fun line => line.start ≤ position) source.lines - 1

theorem lineIndex_lt (source : Source) (position : Nat) :
    source.lineIndex position < source.lines.size := by
  have h := partitionPoint_le (fun line : Line => line.start ≤ position) source.lines
  have h0 := source.lines_size_pos
  unfold lineIndex
  omega

/-- The line and the column of a position. -/
def linePosition (source : Source) (position : Nat) : LinePosition :=
  let index := source.lineIndex position
  have : index < source.lines.size := source.lineIndex_lt position
  ⟨index, position - source.lines[index].start⟩

end Source

end LosslessSyntax
