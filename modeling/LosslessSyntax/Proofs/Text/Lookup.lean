import LosslessSyntax.Proofs.Text.Division
import Mathlib.Data.Prod.Lex
import Mathlib.Order.Bounds.Basic
import Mathlib.Order.Monotone.Basic

/-!
# The lookup of a position

The table of lines is in the order of the starts, and its first line starts where the text does. So
bisection finds the last line that starts at or before a position (`Source.le_lineIndex_iff`), and
the start of this line can be subtracted from the position (`Source.exists_linePosition`).

Line and column give the position back, hence no two positions are at one place. Places are in the
order of their lines, and on one line in that of their columns; the lookup keeps the order of the
positions (`Source.strictMono_linePosition`).
-/

namespace LosslessSyntax

/-- Places are in the order of their lines, and on one line in that of their columns. -/
instance LinePosition.instPreorder : Preorder LinePosition :=
  Preorder.lift fun place => toLex (place.line, place.column)

theorem LinePosition.lt_iff {a b : LinePosition} :
    a < b ↔ a.line < b.line ∨ a.line = b.line ∧ a.column < b.column :=
  Prod.Lex.lt_iff

namespace Source

variable {text : String} {position index : Nat} {line next : Line}

/-- The indices of the lines that start at or before a position. -/
def startedBy (source : Source) (position : Nat) : Set Nat :=
  {index | ∃ line, source.lines[index]? = some line ∧ line.start ≤ position}

/-! ### The line of a position -/

/-- The lines up to the one that is found are those that start at or before the position. -/
theorem le_lineIndex_iff (hline : (ofString text).lines[index]? = some line) :
    index ≤ (ofString text).lineIndex position ↔ line.start ≤ position := by
  rw [lines_getElem?] at hline
  have hsorted : (Line.scan 0 0 text.toList).Pairwise fun a b =>
      decide (b.start ≤ position) = true → decide (a.start ≤ position) = true := by
    refine (Line.increasing_scan 0 0 text.toList).imp fun hlt hb => ?_
    rw [decide_eq_true_eq] at hb ⊢
    exact Nat.le_trans (Nat.le_of_lt hlt) hb
  -- The first line starts at or before every position, so that there is one to find.
  have hfirst : 0 < partitionPoint (fun line : Line => decide (line.start ≤ position))
      (ofString text).lines := by
    obtain ⟨first, others, hscan, hstart, -⟩ := Line.exists_scan_eq_cons 0 0 text.toList
    refine (lt_partitionPoint_iff hsorted (x := first) ?_).mpr ?_
    · rw [hscan]
      rfl
    · rw [hstart, decide_eq_true_eq]
      exact Nat.zero_le position
  have hpoint := lt_partitionPoint_iff hsorted hline
  rw [decide_eq_true_eq] at hpoint
  rw [← hpoint, lineIndex]
  exact Nat.le_sub_one_iff_lt hfirst

/-- A position up to the end of the source is on the line that is found, or in its break. -/
theorem le_stop_lineIndex
    (hline : (ofString text).lines[(ofString text).lineIndex position]? = some line)
    (hposition : position ≤ (ofString text).length) : position ≤ line.spanWithBreak.stop := by
  have hdivided := dividedFrom_lines text
  have hline' := hline
  rw [← Array.getElem?_toList] at hline'
  cases hnext : (ofString text).lines[(ofString text).lineIndex position + 1]? with
  | some next =>
    have hbehind : ¬next.start ≤ position := fun hle =>
      absurd ((le_lineIndex_iff hnext).mpr hle) (Nat.not_succ_le_self _)
    rw [← Array.getElem?_toList] at hnext
    have := hdivided.start_eq hline' hnext
    omega
  | none =>
    rw [← Array.getElem?_toList] at hnext
    rwa [hdivided.stop_eq hline' hnext]

/-! ### The place of a position -/

/-- The line that is found starts at or before the position, and the column is what is between. -/
theorem exists_linePosition (text : String) (position : Nat) :
    ∃ line column, (ofString text).lines[(ofString text).lineIndex position]? = some line ∧
      (ofString text).linePosition position = ⟨(ofString text).lineIndex position, column⟩ ∧
      line.start + column = position := by
  have hline := Array.getElem?_eq_getElem ((ofString text).lineIndex_lt position)
  have hstart := (le_lineIndex_iff hline).mp (Nat.le_refl _)
  exact ⟨_, _, hline, linePosition_of_lineIndex rfl hline, Nat.add_sub_cancel' hstart⟩

/-- A position behind another is at a place behind that of the other. -/
theorem strictMono_linePosition (text : String) : StrictMono (ofString text).linePosition := by
  intro a b hlt
  obtain ⟨line, column, hline, hplace, hcolumn⟩ := exists_linePosition text a
  obtain ⟨line', column', hline', hplace', hcolumn'⟩ := exists_linePosition text b
  have hle : (ofString text).lineIndex a ≤ (ofString text).lineIndex b :=
    (le_lineIndex_iff hline).mpr (by omega)
  rw [hplace, hplace', LinePosition.lt_iff]
  rcases Nat.lt_or_eq_of_le hle with hindex | hindex
  · exact .inl hindex
  · rw [hindex, hline'] at hline
    obtain rfl := Option.some.inj hline
    exact .inr ⟨hindex, by dsimp only; omega⟩

/-! ### Places within lines -/

/-- What a text goes on with is on the last line of the part before it. -/
private theorem exists_head?_scan {front back : List Char} (htext : text.toList = front ++ back)
    (h : Apart front back) :
    ∃ line start,
      (ofString text).lines[((ofString text).linePosition (byteLength front)).line]? = some line ∧
      (Line.scan start ((ofString text).linePosition (byteLength front)).column back).head? =
        some line := by
  obtain ⟨lines, last, hfront, -, hback⟩ := Line.exists_scan_eq_append 0 0 front
  obtain ⟨first, others, hscan, -⟩ := Line.exists_scan_eq_cons last.start last.length back
  have hplace : (ofString text).linePosition (byteLength front) = ⟨lines.length, last.length⟩ := by
    rw [linePosition_eq_behind htext h, LinePosition.behind, Line.ofText, hfront]
    simp
  rw [hplace]
  refine ⟨first, last.start, ?_, by rw [hscan, List.head?_cons]⟩
  rw [lines_getElem?, htext, hback back h, hscan, List.getElem?_append_right (Nat.le_refl _),
    Nat.sub_self, List.getElem?_cons_zero]

/-- A character that is not of a break is on its line, before the break. -/
theorem WithinLine.exists_column_lt_length (h : (ofString text).WithinLine position) :
    ∃ line, (ofString text).lines[((ofString text).linePosition position).line]? = some line ∧
      ((ofString text).linePosition position).column < line.length := by
  obtain ⟨front, c, cs, htext, hc, rfl⟩ : ∃ front c cs, text.toList = front ++ c :: cs ∧ _ := h
  have hpiece : ∀ d ∈ [c], isBreak d = false := List.forall_mem_singleton.mpr hc
  have hapart : Apart front (c :: cs) := by
    rintro - hfeed
    rw [Option.some.inj hfeed] at hc
    cases hc
  obtain ⟨line, start, hline, hhead⟩ := exists_head?_scan htext hapart
  rw [← List.singleton_append, Line.scan_append_of_isBreak_eq_false hpiece] at hhead
  have hlength := Line.length_le_of_mem_head?_scan _ _ _ line hhead
  have hpos := byteLength_pos (List.cons_ne_nil c [])
  exact ⟨line, hline, by omega⟩

/-- The end of a source is at the end of the last line. -/
theorem exists_column_eq_length (text : String) :
    ∃ line,
      (ofString text).lines[((ofString text).linePosition text.utf8ByteSize).line]? = some line ∧
      ((ofString text).linePosition text.utf8ByteSize).column = line.length := by
  obtain ⟨line, start, hline, hhead⟩ :=
    exists_head?_scan (List.append_nil text.toList).symm (.nil_right text.toList)
  rw [Line.scan, List.head?_cons] at hhead
  rw [← byteLength_toList]
  exact ⟨line, hline, congrArg Line.length (Option.some.inj hhead)⟩

/-- **The lookup of a position inverts the table of lines.** For every position, also past the end,
the line that is found is the last one that starts at or before the position. The place of the
position is on this line, which the table has, at the column that together with the start of the
line gives the position. A position up to the end of the source is not behind the line with its
break. Places are in the order of their positions, and no two positions have one place. -/
theorem linePosition_inverts_lines (text : String) :
    (∀ position,
      IsGreatest ((ofString text).startedBy position) ((ofString text).lineIndex position)) ∧
    (∀ position, ∃ line column,
      (ofString text).lines[(ofString text).lineIndex position]? = some line ∧
      (ofString text).linePosition position = ⟨(ofString text).lineIndex position, column⟩ ∧
      line.start + column = position ∧
      (position ≤ (ofString text).length → column ≤ line.lengthWithBreak)) ∧
    StrictMono (ofString text).linePosition ∧ Function.Injective (ofString text).linePosition := by
  have hmono := strictMono_linePosition text
  refine ⟨fun position => ?_, fun position => ?_, hmono, hmono.injective⟩
  · have hline := Array.getElem?_eq_getElem ((ofString text).lineIndex_lt position)
    refine ⟨⟨_, hline, (le_lineIndex_iff hline).mp (Nat.le_refl _)⟩, ?_⟩
    rintro index ⟨line, hstarted, hle⟩
    exact (le_lineIndex_iff hstarted).mpr hle
  · obtain ⟨line, column, hline, hplace, hcolumn⟩ := exists_linePosition text position
    refine ⟨line, column, hline, hplace, hcolumn, fun hposition => ?_⟩
    have hstop := le_stop_lineIndex hline hposition
    simp only [Span.stop, Line.spanWithBreak] at hstop
    omega

end Source

end LosslessSyntax
