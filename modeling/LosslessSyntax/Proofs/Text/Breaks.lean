import LosslessSyntax.Proofs.Text.LineBreaks

/-!
# Line breaks of a source

A line break stands in a text as a whole: it is a line feed, a carriage return or the two together,
and a division of the text before or behind it does not run through a break (`WholeBreak`). The
table of lines has one line more for every such break, and each break lies between the end of its
line and the start of the next (`Source.endsLine_iff`).

Where a text may be divided there is no break on both sides (`WholeBreak.le_or_le`), and a part
without breaks has both its ends on one line (`Source.onOneLine`).
-/

namespace LosslessSyntax

/-- A line break with the text before it and behind it. -/
structure WholeBreak (front piece back : List Char) : Prop where
  spelled : piece = ['\n'] ∨ piece = ['\r'] ∨ piece = ['\r', '\n']
  before : Apart front (piece ++ back)
  behind : Apart piece back

namespace WholeBreak

variable {front piece back : List Char}

theorem exists_cons (h : WholeBreak front piece back) :
    ∃ c cs, piece = c :: cs ∧ isBreak c = true := by
  rcases h.spelled with rfl | rfl | rfl <;> exact ⟨_, _, rfl, rfl⟩

theorem length_pos (h : WholeBreak front piece back) : 0 < byteLength piece := by
  obtain ⟨c, cs, rfl, -⟩ := h.exists_cons
  exact byteLength_pos (List.cons_ne_nil c cs)

/-- A break behind another is a break of the whole text. -/
theorem append_left {front' piece' back' : List Char} (h : WholeBreak front' piece' back')
    (hbefore : WholeBreak front piece (front' ++ (piece' ++ back'))) :
    WholeBreak (front ++ (piece ++ front')) piece' back' where
  spelled := h.spelled
  before := by
    have hfront := hbefore.before.append hbefore.behind
    rw [← List.append_assoc]
    exact hfront.append h.before
  behind := h.behind

end WholeBreak

/-- A text has no breaks, or there is a first one. -/
theorem exists_wholeBreak_or (cs : List Char) :
    (∀ c ∈ cs, isBreak c = false) ∨ ∃ front piece back, cs = front ++ (piece ++ back) ∧
      (∀ c ∈ front, isBreak c = false) ∧ WholeBreak front piece back := by
  induction cs with
  | nil => exact .inl nofun
  | cons c cs ih =>
    by_cases hbreak : isBreak c = true
    · refine .inr ?_
      by_cases hpair : c = '\r' ∧ cs.head? = some '\n'
      · obtain ⟨rfl, hhead⟩ := hpair
        obtain ⟨ds, rfl⟩ := List.head?_eq_some_iff.mp hhead
        exact ⟨[], ['\r', '\n'], ds, rfl, nofun, .inr (.inr rfl), .nil_left _, nofun⟩
      · have hbehind : Apart [c] cs := .cons (fun hc _ => not_and.mp hpair hc) (.nil_left cs)
        refine ⟨[], [c], cs, rfl, nofun, ?_, .nil_left _, hbehind⟩
        rcases isBreak_iff.mp hbreak with rfl | rfl
        · exact .inr (.inl rfl)
        · exact .inl rfl
    · rw [Bool.not_eq_true] at hbreak
      rcases ih with hcs | ⟨front, piece, back, rfl, hfront, hpiece⟩
      · exact .inl (List.forall_mem_cons.mpr ⟨hbreak, hcs⟩)
      · have hcons : ∀ d ∈ c :: front, isBreak d = false :=
          List.forall_mem_cons.mpr ⟨hbreak, hfront⟩
        exact .inr ⟨c :: front, piece, back, rfl, hcons, hpiece.spelled,
          apart_of_isBreak_eq_false hcons _, hpiece.behind⟩

/-! ### The table of lines -/

namespace Line

/-- A text without breaks makes the line longer. -/
theorem scan_append_of_isBreak_eq_false {front : List Char}
    (h : ∀ c ∈ front, isBreak c = false) (start length : Nat) (back : List Char) :
    scan start length (front ++ back) = scan start (length + byteLength front) back := by
  induction front generalizing length with
  | nil => rfl
  | cons c front ih =>
    obtain ⟨hc, hfront⟩ := List.forall_mem_cons.mp h
    have hreturn : c ≠ '\r' := by
      rintro rfl
      cases hc
    have hfeed : c ≠ '\n' := by
      rintro rfl
      cases hc
    rw [List.cons_append, scan, ih hfront, byteLength_cons, Nat.add_assoc]
    · exact fun _ h _ => hreturn h
    · exact hreturn
    · exact hfeed

/-- A text without breaks is one line. -/
theorem scan_of_isBreak_eq_false {cs : List Char} (h : ∀ c ∈ cs, isBreak c = false)
    (start length : Nat) :
    scan start length cs = [⟨start, length + byteLength cs, length + byteLength cs⟩] := by
  have hscan := scan_append_of_isBreak_eq_false h start length []
  rwa [List.append_nil, scan] at hscan

/-- A break ends the line. -/
theorem scan_append_of_wholeBreak {front piece back : List Char} (h : WholeBreak front piece back)
    (start length : Nat) :
    scan start length (piece ++ back) =
      ⟨start, length, length + byteLength piece⟩ ::
        scan (start + (length + byteLength piece)) 0 back := by
  have hbehind := h.behind
  rcases h.spelled with rfl | rfl | rfl
  · rw [List.singleton_append, scan]
    rfl
  · rw [List.singleton_append, scan]
    · rfl
    · rintro cs rfl
      exact hbehind rfl rfl
  · rw [List.cons_append, List.singleton_append, scan]
    rfl

/-- There is one line only, or the first break divides the first line from the others. -/
theorem exists_scan_eq_or (start length : Nat) (cs : List Char) :
    (∃ line, scan start length cs = [line]) ∨
      ∃ front piece back line, cs = front ++ (piece ++ back) ∧ WholeBreak front piece back ∧
        line.stop = start + length + byteLength front ∧
        scan start length cs = line :: scan (line.stop + byteLength piece) 0 back := by
  rcases exists_wholeBreak_or cs with hcs | ⟨front, piece, back, rfl, hfront, hpiece⟩
  · exact .inl ⟨_, scan_of_isBreak_eq_false hcs start length⟩
  · have hscan := scan_append_of_isBreak_eq_false hfront start length (piece ++ back)
    rw [scan_append_of_wholeBreak hpiece, ← Nat.add_assoc start] at hscan
    exact .inr ⟨front, piece, back, _, rfl, hpiece, (Nat.add_assoc start length _).symm, hscan⟩

/-- Between two lines of a text there is a break. -/
theorem exists_wholeBreak {start length index : Nat} {cs : List Char} {line next : Line}
    (hline : (scan start length cs)[index]? = some line)
    (hnext : (scan start length cs)[index + 1]? = some next) :
    ∃ front piece back, cs = front ++ (piece ++ back) ∧ WholeBreak front piece back ∧
      line.stop = start + length + byteLength front ∧
      next.start = line.stop + byteLength piece := by
  induction index generalizing start length cs with
  | zero =>
    rcases exists_scan_eq_or start length cs with
      ⟨only, hscan⟩ | ⟨front, piece, back, first, hcs, hpiece, hstop, hscan⟩
    · rw [hscan] at hnext
      cases hnext
    · obtain ⟨second, others, hback, hsecond, -⟩ :=
        exists_scan_eq_cons (first.stop + byteLength piece) 0 back
      rw [hscan, hback] at hline hnext
      obtain rfl := Option.some.inj hline
      obtain rfl := Option.some.inj hnext
      exact ⟨front, piece, back, hcs, hpiece, hstop, hsecond⟩
  | succ index ih =>
    rcases exists_scan_eq_or start length cs with
      ⟨only, hscan⟩ | ⟨front, piece, back, first, hcs, hpiece, hstop, hscan⟩
    · rw [hscan] at hnext
      cases hnext
    · rw [hscan] at hline hnext
      obtain ⟨front', piece', back', rfl, hpiece', hstop', hstart⟩ := ih hline hnext
      refine ⟨front ++ (piece ++ front'), piece', back', ?_, hpiece'.append_left hpiece, ?_, hstart⟩
      · rw [hcs, List.append_assoc, List.append_assoc]
      · rw [hstop', hstop, byteLength_append, byteLength_append]
        omega

end Line

/-- A span goes from the end of a line to the start of the next one. -/
def Source.EndsLine (source : Source) (span : Span) : Prop :=
  ∃ (index : Nat) (line next : Line), source.lines[index]? = some line ∧
    source.lines[index + 1]? = some next ∧ span.start = line.stop ∧ span.stop = next.start

theorem Source.lines_getElem? (text : String) (index : Nat) :
    (ofString text).lines[index]? = (Line.scan 0 0 text.toList)[index]? := by
  rw [Source.lines_eq, List.getElem?_toArray]
  rfl

/-- Lines end at the breaks of the text. -/
theorem Source.endsLine_iff {text : String} {span : Span} :
    (ofString text).EndsLine span ↔ ∃ front piece back, text.toList = front ++ (piece ++ back) ∧
      WholeBreak front piece back ∧ span = ⟨byteLength front, byteLength piece⟩ := by
  constructor
  · rintro ⟨index, line, next, hline, hnext, hstart, hstop⟩
    rw [lines_getElem?] at hline hnext
    obtain ⟨front, piece, back, htext, hpiece, hend, hbegin⟩ := Line.exists_wholeBreak hline hnext
    refine ⟨front, piece, back, htext, hpiece, ?_⟩
    obtain ⟨start, length⟩ := span
    simp only [Span.stop] at hstart hstop
    rw [Span.mk.injEq]
    omega
  · rintro ⟨front, piece, back, htext, hpiece, rfl⟩
    obtain ⟨lines, last, -, hstop, hback⟩ := Line.exists_scan_eq_append 0 0 front
    obtain ⟨next, others, hnext, hstart, -⟩ := Line.exists_scan_eq_cons
      (last.start + (last.length + byteLength piece)) 0 back
    have hscan := hback (piece ++ back) hpiece.before
    rw [Line.scan_append_of_wholeBreak hpiece, hnext, ← htext] at hscan
    rw [Line.stop, Nat.zero_add] at hstop
    refine ⟨lines.length, ⟨last.start, last.length, last.length + byteLength piece⟩, next, ?_, ?_,
      hstop.symm, ?_⟩
    · rw [lines_getElem?, hscan, List.getElem?_append_right (Nat.le_refl _), Nat.sub_self]
      rfl
    · rw [lines_getElem?, hscan, List.getElem?_append_right (Nat.le_add_right _ _),
        Nat.add_sub_cancel_left]
      rfl
    · rw [hstart, Span.stop, ← hstop, Nat.add_assoc]

/-! ### Divisions of a text -/

/-- A text that may be divided is divided before a break or behind it. -/
theorem WholeBreak.le_or_le {front piece back before behind : List Char}
    (h : WholeBreak front piece back) (hapart : Apart before behind)
    (htext : front ++ (piece ++ back) = before ++ behind) :
    byteLength before ≤ byteLength front ∨
      byteLength front + byteLength piece ≤ byteLength before := by
  rcases List.append_eq_append_iff.mp htext with ⟨inner, rfl, hinner⟩ | ⟨inner, rfl, hinner⟩
  · rw [byteLength_append]
    rcases List.append_eq_append_iff.mp hinner with ⟨rest, rfl, -⟩ | ⟨rest, rfl, rfl⟩
    · rw [byteLength_append]
      omega
    -- The division would run between the two characters of the break.
    · cases inner with
      | nil => exact .inl (Nat.le_refl _)
      | cons c inner =>
        cases rest with
        | nil =>
          rw [List.append_nil]
          exact .inr (Nat.le_refl _)
        | cons d rest =>
          obtain ⟨rfl, hpair⟩ : c = '\r' ∧ inner ++ d :: rest = ['\n'] := by
            simpa using h.spelled
          obtain ⟨rfl, hd⟩ : inner = [] ∧ d :: rest = ['\n'] := by
            simpa [List.append_eq_singleton_iff] using hpair
          obtain ⟨rfl, -⟩ := List.cons.inj hd
          exact absurd rfl (hapart List.getLast?_concat)
  · rw [byteLength_append]
    exact .inl (Nat.le_add_right _ _)

/-- A part of a text that a break lies in has a character of the break. -/
theorem WholeBreak.exists_mem {front piece back before middle behind : List Char}
    (h : WholeBreak front piece back)
    (htext : front ++ (piece ++ back) = before ++ (middle ++ behind))
    (hstart : byteLength before ≤ byteLength front)
    (hstop : byteLength front + byteLength piece ≤ byteLength before + byteLength middle) :
    ∃ c ∈ middle, isBreak c = true := by
  have hpos := h.length_pos
  obtain ⟨c, cs, rfl, hbreak⟩ := h.exists_cons
  obtain ⟨passed, rfl, hpassed⟩ : ∃ passed, front = before ++ passed ∧
      middle ++ behind = passed ++ (c :: cs ++ back) := by
    rcases List.append_eq_append_iff.mp htext with ⟨inner, rfl, hinner⟩ | ⟨inner, rfl, hinner⟩
    · rw [byteLength_append] at hstart
      have hnil : inner = [] := by
        by_contra hne
        have := byteLength_pos hne
        omega
      rw [hnil, List.append_nil]
      rw [hnil] at hinner
      exact ⟨[], (List.append_nil _).symm, hinner.symm⟩
    · exact ⟨inner, rfl, hinner⟩
  rw [byteLength_append] at hstop
  rcases List.append_eq_append_iff.mp hpassed with ⟨inner, rfl, -⟩ | ⟨inner, rfl, hinner⟩
  · rw [byteLength_append] at hstop
    omega
  · cases inner with
    | nil =>
      rw [List.append_nil] at hstop
      omega
    | cons d inner =>
      obtain ⟨rfl, -⟩ := List.cons.inj hinner
      exact ⟨c, List.mem_append_right _ List.mem_cons_self, hbreak⟩

namespace Source.EndsLine

variable {text : String} {span other : Span}

/-- What is between two lines is not divided where the text may be divided. -/
theorem le_or_le (h : (ofString text).EndsLine span) {front back : List Char}
    (htext : text.toList = front ++ back) (hapart : Apart front back) :
    byteLength front ≤ span.start ∨ span.stop ≤ byteLength front := by
  obtain ⟨front', piece, back', htext', hbreak, rfl⟩ := endsLine_iff.mp h
  exact hbreak.le_or_le hapart (htext'.symm.trans htext)

theorem bounds (h : (ofString text).EndsLine span) :
    span.start < span.stop ∧ span.stop ≤ text.utf8ByteSize := by
  obtain ⟨front, piece, back, htext, hbreak, rfl⟩ := endsLine_iff.mp h
  have hpos := hbreak.length_pos
  rw [← byteLength_toList, htext, byteLength_append, byteLength_append]
  simp only [Span.stop]
  omega

/-- Between two other lines is something else. -/
theorem eq_or_disjoint (h : (ofString text).EndsLine span)
    (hother : (ofString text).EndsLine other) :
    span = other ∨ span.stop ≤ other.start ∨ other.stop ≤ span.start := by
  have hdivides {a b : Span} (ha : (ofString text).EndsLine a) (hb : (ofString text).EndsLine b) :
      (a.start ≤ b.start ∨ b.stop ≤ a.start) ∧ (a.stop ≤ b.start ∨ b.stop ≤ a.stop) := by
    obtain ⟨front, piece, back, htext, hbreak, rfl⟩ := endsLine_iff.mp ha
    have hstop := hb.le_or_le (by rw [htext, List.append_assoc])
      (hbreak.before.append hbreak.behind)
    rw [byteLength_append] at hstop
    exact ⟨hb.le_or_le htext hbreak.before, hstop⟩
  have hspan := hdivides h hother
  have hback := hdivides hother h
  obtain ⟨start, length⟩ := span
  obtain ⟨start', length'⟩ := other
  simp only [Span.stop] at hspan hback ⊢
  rw [Span.mk.injEq]
  omega

end Source.EndsLine

/-! ### Spans within a line -/

/-- A text without breaks behind another one ends on the same line. -/
theorem LinePosition.line_behind_append {front piece : List Char} (h : Apart front piece)
    (hpiece : ∀ c ∈ piece, isBreak c = false) :
    (behind (front ++ piece)).line = (behind front).line := by
  obtain ⟨lines, last, hfront, -, hback⟩ := Line.exists_scan_eq_append 0 0 front
  rw [behind, behind, Line.ofText, Line.ofText, hback piece h, hfront,
    Line.scan_of_isBreak_eq_false hpiece, List.length_append, List.length_append]
  rfl

namespace Source

/-- At a position of a source stands a character that is not of a break. -/
def WithinLine (source : Source) (position : Nat) : Prop :=
  ∃ front c cs, source.text.toList = front ++ c :: cs ∧ isBreak c = false ∧
    position = byteLength front

/-- Such a position is before the end of the source. -/
theorem WithinLine.lt_length {source : Source} {position : Nat} (h : source.WithinLine position) :
    position < source.length := by
  obtain ⟨front, c, cs, htext, -, rfl⟩ := h
  rw [length_eq htext]
  exact Nat.lt_add_of_pos_right (byteLength_pos (List.cons_ne_nil c cs))

/-- No line of a source ends within a span or across one of its ends. -/
structure OnOneLine (source : Source) (span : Span) : Prop where
  disjoint : ∀ other, source.EndsLine other → span.stop ≤ other.start ∨ other.stop ≤ span.start
  lineIndex_eq : source.lineIndex span.start = source.lineIndex span.stop

/-- The place of the end of a front part. -/
theorem linePosition_eq_behind {text : String} {front back : List Char}
    (htext : text.toList = front ++ back) (h : Apart front back) :
    (ofString text).linePosition (byteLength front) = LinePosition.behind front := by
  have hplace := linePosition_byteLength h
  rwa [← htext, String.ofList_toList] at hplace

theorem lineIndex_byteLength {text : String} {front back : List Char}
    (htext : text.toList = front ++ back) (h : Apart front back) :
    (ofString text).lineIndex (byteLength front) = (LinePosition.behind front).line :=
  congrArg LinePosition.line (linePosition_eq_behind htext h)

/-- A part of a text without breaks is on one line. -/
theorem onOneLine {text : String} {front piece back : List Char}
    (htext : text.toList = front ++ (piece ++ back)) (h : Apart front (piece ++ back))
    (hpiece : ∀ c ∈ piece, isBreak c = false) :
    (ofString text).OnOneLine ⟨byteLength front, byteLength piece⟩ where
  disjoint := by
    intro other hother
    have hstart := hother.le_or_le htext h
    have hstop := hother.le_or_le (by rw [htext, List.append_assoc])
      (h.append (apart_of_isBreak_eq_false hpiece back))
    obtain ⟨front', piece', back', htext', hbreak, rfl⟩ := endsLine_iff.mp hother
    rw [byteLength_append] at hstop
    simp only [Span.stop] at hstart hstop ⊢
    by_contra hcross
    obtain ⟨c, hc, hmem⟩ := hbreak.exists_mem (htext'.symm.trans htext) (by omega) (by omega)
    rw [hpiece c hc] at hmem
    cases hmem
  lineIndex_eq := by
    have hstop : Apart (front ++ piece) back := h.append (apart_of_isBreak_eq_false hpiece back)
    rw [Span.stop, ← byteLength_append, lineIndex_byteLength htext h,
      lineIndex_byteLength (by rw [htext, List.append_assoc]) hstop,
      LinePosition.line_behind_append h.of_append hpiece]

end Source

end LosslessSyntax
