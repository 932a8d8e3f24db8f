import LosslessSyntax.Proofs.Text.Breaks

/-!
# The division of a text into lines

What the lines of a source are can be said without a scan of its text: they lie one behind the other
from its start to its end, none of them has a break within it, and each but the last is followed by
one whole break (`Source.DividedFrom`). There is only one way to divide a text like this, which is
the table of lines of the source (`Source.dividedFrom_iff`).

The first line of such a division and the break behind it are given by the text
(`Source.dividedFrom_cons_iff`), and so is a line that is the only one
(`Source.dividedFrom_singleton_iff`). The table satisfies both step by step
(`Source.dividedFrom_scan`), and a division that satisfies them is the table
(`Source.DividedFrom.eq_scan`).
-/

namespace LosslessSyntax

theorem forall_isBreak_eq_false_iff {cs : List Char} :
    (∀ c ∈ cs, isBreak c = false) ↔ '\r' ∉ cs ∧ '\n' ∉ cs := by
  simp only [Bool.eq_false_iff, Ne, isBreak_iff, not_or, imp_and, forall_and, List.forall_mem_ne']

namespace Source

variable {source : Source} {start : Nat} {line next : Line} {lines : List Line}
  {front cs : List Char}

/-! ### Divisions -/

/-- The text of a line has no break in it. -/
def Unbroken (source : Source) (line : Line) : Prop :=
  ∃ piece, source.slice line.span = .ok piece ∧ '\r' ∉ piece.toList ∧ '\n' ∉ piece.toList

/-- Behind a line is a break, which is counted in the length of the line with its break: a line
feed, the two characters together, or a carriage return with no line feed behind it. -/
def BrokenOff (source : Source) (line : Line) : Prop :=
  ∃ brk, source.slice ⟨line.stop, brk.utf8ByteSize⟩ = .ok brk ∧
    line.lengthWithBreak = line.length + brk.utf8ByteSize ∧
    (brk = "\n" ∨ brk = "\r\n" ∨ brk = "\r" ∧ source.charAt (line.stop + 1) ≠ .ok '\n')

/-- Lines that divide a source from a position on. -/
structure DividedFrom (source : Source) (start : Nat) (lines : List Line) : Prop where
  /-- There is a line. -/
  ne_nil : lines ≠ []
  /-- The first one starts at the position. -/
  head_start : ∀ line ∈ lines.head?, line.start = start
  /-- Each other one starts where the one before it and its break end. -/
  contiguous : lines.IsChain fun line next => next.start = line.spanWithBreak.stop
  /-- The last one ends where the source does. -/
  last_stop : ∀ line ∈ lines.getLast?, line.spanWithBreak.stop = source.length
  /-- None has a break in its text. -/
  unbroken : ∀ line ∈ lines, source.Unbroken line
  /-- Each but the last is followed by a break. -/
  brokenOff : ∀ line ∈ lines.dropLast, source.BrokenOff line
  /-- The last one has no break. -/
  last_length : ∀ line ∈ lines.getLast?, line.lengthWithBreak = line.length

/-! ### The first line of a division -/

/-- A line without breaks is a part of the text without breaks. -/
theorem unbroken_iff (htext : source.text.toList = front ++ cs)
    (hstart : line.start = byteLength front) :
    source.Unbroken line ↔ ∃ piece back, cs = piece ++ back ∧ line.length = byteLength piece ∧
      ∀ c ∈ piece, isBreak c = false := by
  have hspan : line.span = ⟨byteLength front, line.length⟩ := by rw [Line.span, hstart]
  simp only [Unbroken, hspan, slice_eq_ok_iff htext, forall_isBreak_eq_false_iff]
  constructor
  · rintro ⟨piece, ⟨back, hcs, hlength⟩, hpiece⟩
    exact ⟨piece.toList, back, hcs, hlength, hpiece⟩
  · rintro ⟨piece, back, hcs, hlength, hpiece⟩
    refine ⟨String.ofList piece, ⟨back, ?_, ?_⟩, ?_⟩
    all_goals rwa [String.toList_ofList]

/-- A line of a text is followed by a break where the text goes on with a whole one. -/
theorem brokenOff_iff {piece : List Char} (htext : source.text.toList = front ++ (piece ++ cs))
    (hpiece : ∀ c ∈ piece, isBreak c = false) (hstart : line.start = byteLength front)
    (hlength : line.length = byteLength piece) :
    source.BrokenOff line ↔ ∃ brk back, cs = brk ++ back ∧ WholeBreak piece brk back ∧
      line.lengthWithBreak = byteLength piece + byteLength brk := by
  have hstop : line.stop = byteLength (front ++ piece) := by
    rw [Line.stop, hstart, hlength, byteLength_append]
  rw [← List.append_assoc] at htext
  have hreturn {back : List Char} (hcs : cs = '\r' :: back) :
      source.charAt (line.stop + 1) = .ok '\n' ↔ back.head? = some '\n' := by
    have hbehind : line.stop + 1 = byteLength (front ++ piece ++ ['\r']) := by
      rw [hstop, byteLength_append (front ++ piece)]
      rfl
    rw [hbehind]
    exact charAt_eq_ok_iff (by rw [htext, hcs, List.append_cons])
  constructor
  · rintro ⟨brk, hslice, hbreak, hspelled⟩
    rw [hstop, slice_eq_ok_iff htext] at hslice
    obtain ⟨back, rfl, -⟩ := hslice
    refine ⟨brk.toList, back, rfl, ⟨?_, apart_of_isBreak_eq_false hpiece _, ?_⟩, ?_⟩
    · rcases hspelled with rfl | rfl | ⟨rfl, -⟩
      · exact .inl rfl
      · exact .inr (.inr rfl)
      · exact .inr (.inl rfl)
    · rcases hspelled with rfl | rfl | ⟨rfl, hfeed⟩
      · exact fun hreturns => absurd hreturns (by decide)
      · exact fun hreturns => absurd hreturns (by decide)
      · exact fun _ hhead => hfeed ((hreturn rfl).mpr hhead)
    · rw [hbreak, hlength, byteLength_toList]
  · rintro ⟨brk, back, rfl, hwhole, hbreak⟩
    refine ⟨String.ofList brk, ?_, ?_, ?_⟩
    · rw [hstop, slice_eq_ok_iff htext, utf8ByteSize_ofList, String.toList_ofList]
      exact ⟨back, rfl, rfl⟩
    · rw [hbreak, hlength, utf8ByteSize_ofList]
    · rcases hwhole.spelled with rfl | rfl | rfl
      · exact .inl rfl
      · exact .inr (.inr ⟨rfl, fun hfeed => hwhole.behind rfl ((hreturn rfl).mp hfeed)⟩)
      · exact .inr (.inl rfl)

/-- A line that divides a source by itself is all the text there is. -/
theorem dividedFrom_singleton_iff (htext : source.text.toList = front ++ cs) :
    source.DividedFrom (byteLength front) [line] ↔
      (∀ c ∈ cs, isBreak c = false) ∧ line = ⟨byteLength front, byteLength cs, byteLength cs⟩ := by
  have hsize := length_eq htext
  constructor
  · intro h
    have hstart := h.head_start line rfl
    have hstop := h.last_stop line rfl
    have hlast := h.last_length line rfl
    obtain ⟨piece, back, rfl, hlength, hpiece⟩ :=
      (unbroken_iff htext hstart).mp (h.unbroken line (List.mem_singleton_self line))
    -- The line goes up to the end of the text.
    obtain rfl : back = [] := by
      by_contra hne
      have := byteLength_pos hne
      simp only [Span.stop, Line.spanWithBreak, hsize, byteLength_append] at hstop
      omega
    obtain ⟨_, _, _⟩ := line
    simp only at hstart hlength hlast
    rw [List.append_nil, hlast, hlength, hstart]
    exact ⟨hpiece, rfl⟩
  · rintro ⟨hcs, rfl⟩
    refine ⟨List.cons_ne_nil _ _, ?_, .singleton _, ?_, ?_, List.forall_mem_nil _, ?_⟩
    · rintro _ ⟨⟩
      rfl
    · rintro _ ⟨⟩
      exact hsize.symm
    · refine List.forall_mem_singleton.mpr ((unbroken_iff htext rfl).mpr ⟨cs, [], ?_, rfl, hcs⟩)
      rw [List.append_nil]
    · rintro _ ⟨⟩
      rfl

/-- The first of several lines, and the division behind it. -/
theorem dividedFrom_cons_cons_iff :
    source.DividedFrom start (line :: next :: lines) ↔
      line.start = start ∧ source.Unbroken line ∧ source.BrokenOff line ∧
        source.DividedFrom line.spanWithBreak.stop (next :: lines) := by
  constructor
  · intro h
    obtain ⟨hnext, hlines⟩ := List.isChain_cons_cons.mp h.contiguous
    obtain ⟨hline, hunbroken⟩ := List.forall_mem_cons.mp h.unbroken
    obtain ⟨hbreak, hbroken⟩ := List.forall_mem_cons.mp h.brokenOff
    refine ⟨h.head_start line rfl, hline, hbreak, List.cons_ne_nil _ _, ?_, hlines, ?_, hunbroken,
      hbroken, ?_⟩
    · rintro _ ⟨⟩
      exact hnext
    · exact h.last_stop
    · exact h.last_length
  · rintro ⟨hstart, hline, hbreak, h⟩
    refine ⟨List.cons_ne_nil _ _, ?_, ?_, h.last_stop, List.forall_mem_cons.mpr ⟨hline, h.unbroken⟩,
      List.forall_mem_cons.mpr ⟨hbreak, h.brokenOff⟩, h.last_length⟩
    · rintro _ ⟨⟩
      exact hstart
    · exact List.isChain_cons_cons.mpr ⟨h.head_start next rfl, h.contiguous⟩

/-- The first of several lines is the text up to a break, and the division goes on behind it. -/
theorem dividedFrom_cons_iff (htext : source.text.toList = front ++ cs) :
    source.DividedFrom (byteLength front) (line :: next :: lines) ↔
      ∃ piece brk back, cs = piece ++ (brk ++ back) ∧ (∀ c ∈ piece, isBreak c = false) ∧
        WholeBreak piece brk back ∧
        line = ⟨byteLength front, byteLength piece, byteLength piece + byteLength brk⟩ ∧
        source.DividedFrom (byteLength (front ++ (piece ++ brk))) (next :: lines) := by
  have hstop (piece brk : List Char) : byteLength (front ++ (piece ++ brk)) =
      byteLength front + (byteLength piece + byteLength brk) := by
    rw [byteLength_append, byteLength_append]
  rw [dividedFrom_cons_cons_iff]
  constructor
  · rintro ⟨hstart, hline, hbreak, h⟩
    obtain ⟨piece, cs, rfl, hlength, hpiece⟩ := (unbroken_iff htext hstart).mp hline
    obtain ⟨brk, back, rfl, hwhole, hbroken⟩ :=
      (brokenOff_iff htext hpiece hstart hlength).mp hbreak
    obtain ⟨_, _, _⟩ := line
    obtain ⟨rfl, rfl, rfl⟩ : _ ∧ _ ∧ _ := ⟨hstart, hlength, hbroken⟩
    exact ⟨piece, brk, back, rfl, hpiece, hwhole, rfl, by rwa [hstop]⟩
  · rintro ⟨piece, brk, back, rfl, hpiece, hwhole, rfl, h⟩
    rw [hstop] at h
    refine ⟨rfl, ?_, ?_, h⟩
    · exact (unbroken_iff htext rfl).mpr ⟨piece, brk ++ back, rfl, rfl, hpiece⟩
    · exact (brokenOff_iff htext hpiece rfl rfl).mpr ⟨brk, back, rfl, hwhole, rfl⟩

/-! ### Neighbouring lines -/

namespace DividedFrom

variable {index : Nat}

/-- A line starts where the one before it and its break end. -/
theorem start_eq (h : source.DividedFrom start lines) (hline : lines[index]? = some line)
    (hnext : lines[index + 1]? = some next) : next.start = line.spanWithBreak.stop := by
  obtain ⟨hlt, rfl⟩ := List.getElem?_eq_some_iff.mp hline
  obtain ⟨hlt', rfl⟩ := List.getElem?_eq_some_iff.mp hnext
  exact List.isChain_iff_getElem.mp h.contiguous index hlt'

/-- A line with no other behind it ends where the source does. -/
theorem stop_eq (h : source.DividedFrom start lines) (hline : lines[index]? = some line)
    (hnext : lines[index + 1]? = none) : line.spanWithBreak.stop = source.length := by
  have hlt := (List.getElem?_eq_some_iff.mp hline).1
  have hle := List.getElem?_eq_none_iff.mp hnext
  refine h.last_stop line ?_
  rw [List.getLast?_eq_getElem?, Nat.sub_eq_of_eq_add (Nat.le_antisymm hle hlt), hline]
  rfl

end DividedFrom

/-! ### The table of lines -/

/-- A division of the text behind a front part is the table of its lines. -/
theorem DividedFrom.eq_scan (htext : source.text.toList = front ++ cs)
    (h : source.DividedFrom (byteLength front) lines) :
    lines = Line.scan (byteLength front) 0 cs := by
  induction lines generalizing front cs with
  | nil => exact absurd rfl h.ne_nil
  | cons line lines ih =>
    cases lines with
    | nil =>
      obtain ⟨hcs, rfl⟩ := (dividedFrom_singleton_iff htext).mp h
      rw [Line.scan_of_isBreak_eq_false hcs, Nat.zero_add]
    | cons next lines =>
      obtain ⟨piece, brk, back, rfl, hpiece, hwhole, rfl, hlines⟩ :=
        (dividedFrom_cons_iff htext).mp h
      have hbehind : source.text.toList = front ++ (piece ++ brk) ++ back := by
        simpa only [List.append_assoc] using htext
      rw [Line.scan_append_of_isBreak_eq_false hpiece, Line.scan_append_of_wholeBreak hwhole,
        Nat.zero_add, ih hbehind hlines, byteLength_append, byteLength_append]

/-- The table of the lines of the text behind a front part divides it. -/
theorem dividedFrom_scan (htext : source.text.toList = front ++ cs) :
    source.DividedFrom (byteLength front) (Line.scan (byteLength front) 0 cs) := by
  -- On the length of the text: the text behind the first break is shorter.
  induction hsize : cs.length using Nat.strongRecOn generalizing front cs with
  | ind size ih =>
    rcases exists_wholeBreak_or cs with hcs | ⟨piece, brk, back, rfl, hpiece, hwhole⟩
    · rw [Line.scan_of_isBreak_eq_false hcs, Nat.zero_add]
      exact (dividedFrom_singleton_iff htext).mpr ⟨hcs, rfl⟩
    · have hbehind : source.text.toList = front ++ (piece ++ brk) ++ back := by
        simpa only [List.append_assoc] using htext
      have hshorter : back.length < size := by
        obtain ⟨c, brk, rfl, -⟩ := hwhole.exists_cons
        simp only [List.length_append, List.length_cons] at hsize
        omega
      have hlines := ih back.length hshorter hbehind rfl
      rw [Line.scan_append_of_isBreak_eq_false hpiece, Line.scan_append_of_wholeBreak hwhole,
        Nat.zero_add, ← byteLength_append, ← byteLength_append]
      obtain ⟨next, lines, hscan⟩ := List.exists_cons_of_ne_nil
        (Line.scan_ne_nil (byteLength (front ++ (piece ++ brk))) 0 back)
      rw [hscan] at hlines ⊢
      rw [byteLength_append piece]
      exact (dividedFrom_cons_iff htext).mpr
        ⟨piece, brk, back, rfl, hpiece, hwhole, rfl, hlines⟩

/-- The table of lines of a source divides it. -/
theorem dividedFrom_lines (text : String) :
    (ofString text).DividedFrom 0 (ofString text).lines.toList :=
  dividedFrom_scan (List.nil_append _).symm

/-- **Lines are the only division of a text.** The lines of a source start at its start and lie one
behind the other, each from the end of the one before it and its break, up to the end of the source.
There is at least one. None has a carriage return or a line feed in its text. Behind each but the
last comes one break, which its length with the break counts: a line feed, a carriage return and a
line feed, or a carriage return with no line feed behind it. The last line has no break. Any list of
lines of which this holds is the table of the source. -/
theorem dividedFrom_iff (text : String) (lines : List Line) :
    (ofString text).DividedFrom 0 lines ↔ lines = (ofString text).lines.toList := by
  constructor
  · intro h
    exact DividedFrom.eq_scan (List.nil_append _).symm h
  · rintro rfl
    exact dividedFrom_lines text

/-- The first carriage return is a break with the line feed, the second one is a break by itself. -/
example : (ofString "é\r\n\rb\n").lines.toList =
    [⟨0, 2, 4⟩, ⟨4, 0, 1⟩, ⟨5, 1, 2⟩, ⟨7, 0, 0⟩] := by
  decide +kernel

end Source

end LosslessSyntax
