import LosslessSyntax.Proofs.Text.Layout

/-!
# Places in a text

The place of a position is found by bisection in the table of lines. As the lines of the table stand
in the order of their starts (`Line.increasing_scan`), what bisection finds is the number of lines
that start at or before the position (`partitionPoint_append`, `lt_partitionPoint_iff`).

The place behind a front part of a text is at the end of the last line of this part
(`Source.linePosition_byteLength`), whatever the text goes on with: its first lines are those of the
front part (`Line.exists_scan_eq_append`). Only a carriage return at the end of the part and a line
feed behind it must not be divided, since they make one break (`Apart`).
-/

namespace LosslessSyntax

/-! ### Bisection -/

section

variable {α : Type} {test : α → Bool}

/-- Bisection finds the number of elements that pass, where these are the first ones. -/
theorem bisect_eq {xs : Array α} {count : Nat}
    (htest : ∀ i (hi : i < xs.size), test xs[i] = decide (i < count)) {low high : Nat}
    (h : high ≤ xs.size) (hlow : low ≤ count) (hhigh : count ≤ high) :
    bisect test xs low high h = count := by
  fun_induction bisect test xs low high h with
  | case1 low high h hlt middle hmiddle ih =>
    rw [htest, decide_eq_true_eq] at hmiddle
    exact ih hmiddle hhigh
  | case2 low high h hlt middle hmiddle ih =>
    rw [htest, decide_eq_true_eq] at hmiddle
    exact ih hlow (Nat.le_of_not_lt hmiddle)
  | case3 low high h hge => omega

/-- Bisection divides an array where the elements that pass come first. -/
theorem partitionPoint_append {front back : List α} (hfront : ∀ x ∈ front, test x = true)
    (hback : ∀ x ∈ back, test x = false) :
    partitionPoint test (front ++ back).toArray = front.length := by
  refine bisect_eq (fun i hi => ?_) (Nat.le_refl _) (Nat.zero_le _) (by simp)
  simp only [List.getElem_toArray]
  by_cases hlt : i < front.length
  · rw [List.getElem_append_left hlt, hfront _ (List.getElem_mem hlt), decide_eq_true hlt]
  · have hle := Nat.le_of_not_lt hlt
    rw [List.getElem_append_right hle, hback _ (List.getElem_mem _), decide_eq_false hlt]

/-- Bisection tells which elements pass, where every element before one that passes does too. -/
theorem lt_partitionPoint_iff {xs : List α}
    (h : xs.Pairwise fun a b => test b = true → test a = true) {index : Nat} {x : α}
    (hx : xs[index]? = some x) :
    index < partitionPoint test xs.toArray ↔ test x = true := by
  have hfront : ∀ a ∈ xs.takeWhile test, test a = true :=
    List.all_eq_true.mp List.all_takeWhile
  have hback : ∀ a ∈ xs.dropWhile test, test a = false := by
    have hsorted := h.sublist (List.dropWhile_sublist test)
    cases hdrop : xs.dropWhile test with
    | nil => nofun
    | cons b bs =>
      have hb : test b = false := by
        have hhead := List.head?_dropWhile_not test xs
        rwa [hdrop] at hhead
      rw [hdrop] at hsorted
      refine List.forall_mem_cons.mpr ⟨hb, fun a ha => Bool.eq_false_iff.mpr fun hpass => ?_⟩
      rw [List.rel_of_pairwise_cons hsorted ha hpass] at hb
      cases hb
  have hpoint := partitionPoint_append hfront hback
  rw [List.takeWhile_append_dropWhile] at hpoint
  rw [← List.takeWhile_append_dropWhile (p := test) (l := xs)] at hx
  rw [hpoint]
  constructor
  · intro hlt
    rw [List.getElem?_append_left hlt] at hx
    exact hfront x (List.mem_of_getElem? hx)
  · intro hpass
    refine Nat.lt_of_not_le fun hge => ?_
    rw [List.getElem?_append_right hge] at hx
    rw [hback x (List.mem_of_getElem? hx)] at hpass
    cases hpass

end

/-! ### Lines of a front part -/

/-- A text may be divided between two parts: they do not share a line break. -/
def Apart (front back : List Char) : Prop :=
  front.getLast? = some '\r' → back.head? ≠ some '\n'

namespace Apart

variable {front middle back : List Char}

theorem nil_left (back : List Char) : Apart [] back :=
  nofun

theorem nil_right (front : List Char) : Apart front [] :=
  fun _ => nofun

theorem of_cons {c : Char} (h : Apart (c :: front) back) : Apart front back := by
  intro hlast
  exact h (by rw [List.getLast?_cons, hlast, Option.getD_some])

theorem cons {c : Char} (hc : c = '\r' → front = [] → back.head? ≠ some '\n')
    (h : Apart front back) : Apart (c :: front) back := by
  cases front with
  | nil => exact fun hlast => hc (Option.some.inj hlast) rfl
  | cons d front => rwa [Apart, List.getLast?_cons_cons]

theorem of_append (h : Apart front (middle ++ back)) : Apart front middle := by
  cases middle with
  | nil => exact nil_right front
  | cons c middle => exact h

/-- A front part that goes on up to a division may be divided there. -/
theorem append (h : Apart front (middle ++ back)) (hmiddle : Apart middle back) :
    Apart (front ++ middle) back := by
  cases middle with
  | nil => rwa [List.append_nil]
  | cons c middle =>
    intro hlast
    rw [List.getLast?_append, List.getLast?_cons, Option.some_or, ← List.getLast?_cons] at hlast
    exact hmiddle hlast

end Apart

namespace Line

variable {start length : Nat} {cs : List Char}

/-- The lines of a text stand between its start and its end. -/
theorem start_mem_scan :
    ∀ line ∈ scan start length cs,
      start ≤ line.start ∧ line.start ≤ start + length + byteLength cs := by
  fun_induction scan start length cs with
  | case1 start length => simp
  | case2 start length cs ih | case3 start length cs _ ih | case4 start length cs ih =>
    refine List.forall_mem_cons.mpr ⟨⟨Nat.le_refl _, by dsimp only; omega⟩, fun line hline => ?_⟩
    have := ih line hline
    have hr : '\r'.utf8Size = 1 := rfl
    have hn : '\n'.utf8Size = 1 := rfl
    simp only [byteLength_cons]
    omega
  | case5 start length c cs _ _ _ ih =>
    intro line hline
    have := ih line hline
    rw [byteLength_cons]
    omega

/-- The first line begins where the text does, and the others behind what the first line has. -/
theorem exists_scan_eq_cons (start length : Nat) (cs : List Char) :
    ∃ first others, scan start length cs = first :: others ∧ first.start = start ∧
      ∀ line ∈ others, start + length < line.start := by
  fun_induction scan start length cs with
  | case1 start length => exact ⟨_, _, rfl, rfl, List.forall_mem_nil _⟩
  | case2 start length cs _ | case3 start length cs _ _ | case4 start length cs _ =>
    refine ⟨_, _, rfl, rfl, fun line hline => ?_⟩
    have := (start_mem_scan line hline).1
    omega
  | case5 start length c cs _ _ _ ih =>
    obtain ⟨first, others, hscan, hfirst, hothers⟩ := ih
    refine ⟨first, others, hscan, hfirst, fun line hline => ?_⟩
    have := hothers line hline
    omega

/-- Each line starts behind those before it. -/
theorem increasing_scan (start length : Nat) (cs : List Char) :
    (scan start length cs).Pairwise fun a b => a.start < b.start := by
  fun_induction scan start length cs with
  | case1 => exact List.pairwise_singleton _ _
  | case2 start length cs ih | case3 start length cs _ ih | case4 start length cs ih =>
    refine .cons (fun line hline => ?_) ih
    have := (start_mem_scan line hline).1
    dsimp only
    omega
  | case5 start length c cs _ _ _ ih => exact ih

/-- The first line has at least what is begun of it. -/
theorem length_le_of_mem_head?_scan (start length : Nat) (cs : List Char) :
    ∀ line ∈ (scan start length cs).head?, length ≤ line.length := by
  fun_induction scan start length cs with
  | case1 | case2 | case3 | case4 =>
    rintro line ⟨⟩
    exact Nat.le_refl _
  | case5 start length c cs _ _ _ ih =>
    exact fun line hline => Nat.le_trans (Nat.le_add_right _ _) (ih line hline)

/-- A text has the lines of its front part, and the last of these, which ends where the part does,
goes on with the text behind. -/
theorem exists_scan_eq_append (start length : Nat) (front : List Char) :
    ∃ lines last, scan start length front = lines ++ [last] ∧
      last.stop = start + length + byteLength front ∧
      ∀ back, Apart front back →
        scan start length (front ++ back) = lines ++ scan last.start last.length back := by
  have hr : '\r'.utf8Size = 1 := rfl
  have hn : '\n'.utf8Size = 1 := rfl
  fun_induction scan start length front with
  | case1 start length => exact ⟨[], _, rfl, rfl, fun back _ => rfl⟩
  | case2 start length cs ih =>
    obtain ⟨lines, last, hscan, hstop, hback⟩ := ih
    refine ⟨_ :: lines, last, by rw [hscan, List.cons_append], ?_, fun back h => ?_⟩
    · rw [hstop, byteLength_cons, byteLength_cons]
      omega
    · rw [List.cons_append, List.cons_append, scan, hback back h.of_cons.of_cons, List.cons_append]
  | case3 start length cs hne ih =>
    obtain ⟨lines, last, hscan, hstop, hback⟩ := ih
    refine ⟨_ :: lines, last, by rw [hscan, List.cons_append], ?_, fun back h => ?_⟩
    · rw [hstop, byteLength_cons]
      omega
    -- No line feed comes behind the carriage return, in the part or after it.
    · have hfeed : ∀ ds, cs ++ back = '\n' :: ds → False := by
        cases cs with
        | nil =>
          rintro ds rfl
          exact h rfl rfl
        | cons c cs => exact fun ds hcons => hne cs (congrArg (· :: cs) (List.cons.inj hcons).1)
      rw [List.cons_append, scan, hback back h.of_cons, List.cons_append]
      exact hfeed
  | case4 start length cs ih =>
    obtain ⟨lines, last, hscan, hstop, hback⟩ := ih
    refine ⟨_ :: lines, last, by rw [hscan, List.cons_append], ?_, fun back h => ?_⟩
    · rw [hstop, byteLength_cons]
      omega
    · rw [List.cons_append, scan, hback back h.of_cons, List.cons_append]
  | case5 start length c cs _ hreturn hfeed ih =>
    obtain ⟨lines, last, hscan, hstop, hback⟩ := ih
    refine ⟨lines, last, hscan, ?_, fun back h => ?_⟩
    · rw [hstop, byteLength_cons]
      omega
    · rw [List.cons_append, scan, hback back h.of_cons]
      · exact fun _ hc _ => hreturn hc
      · exact hreturn
      · exact hfeed

end Line

/-! ### The place behind a front part -/

/-- The place behind a text: at the end of its last line. -/
def LinePosition.behind (cs : List Char) : LinePosition where
  line := (Line.ofText cs).length - 1
  column := ((Line.ofText cs).map Line.length).getLastD 0

namespace Source

theorem linePosition_of_lineIndex {source : Source} {position index : Nat} {line : Line}
    (hindex : source.lineIndex position = index) (hline : source.lines[index]? = some line) :
    source.linePosition position = ⟨index, position - line.start⟩ := by
  subst hindex
  obtain ⟨hlt, rfl⟩ := Array.getElem?_eq_some_iff.mp hline
  rfl

/-- The place behind a front part of a text is that behind the part by itself. -/
theorem linePosition_byteLength {front back : List Char} (h : Apart front back) :
    (ofString (String.ofList (front ++ back))).linePosition (byteLength front) =
      LinePosition.behind front := by
  obtain ⟨lines, last, hfront, hstop, hback⟩ := Line.exists_scan_eq_append 0 0 front
  obtain ⟨first, others, hscan, hfirst, hothers⟩ :=
    Line.exists_scan_eq_cons last.start last.length back
  rw [Line.stop, Nat.add_zero, Nat.zero_add] at hstop
  have hlines : (ofString (String.ofList (front ++ back))).lines =
      (lines ++ [first] ++ others).toArray := by
    rw [Source.lines_eq, List.append_assoc, List.singleton_append, ← hscan, ← hback back h]
    exact congrArg (fun cs => (Line.ofText cs).toArray) String.toList_ofList
  -- The lines that start at or before the position are those of the front part.
  have hindex : (ofString (String.ofList (front ++ back))).lineIndex (byteLength front) =
      lines.length := by
    rw [lineIndex, hlines, partitionPoint_append, List.length_append, List.length_singleton,
      Nat.add_sub_cancel]
    · refine List.forall_mem_append.mpr ⟨fun line hline => ?_, List.forall_mem_singleton.mpr ?_⟩
      · have hmem : line ∈ Line.scan 0 0 front := hfront ▸ List.mem_append_left _ hline
        simpa using (Line.start_mem_scan line hmem).2
      · rw [hfirst, decide_eq_true_eq, ← hstop]
        exact Nat.le_add_right _ _
    · intro line hline
      rw [decide_eq_false_iff_not, ← hstop]
      exact Nat.not_le_of_lt (hothers line hline)
  have hline : (ofString (String.ofList (front ++ back))).lines[lines.length]? = some first := by
    rw [hlines, List.getElem?_toArray, List.append_assoc,
      List.getElem?_append_right (Nat.le_refl _), Nat.sub_self]
    rfl
  rw [linePosition_of_lineIndex hindex hline, hfirst, ← hstop, Nat.add_sub_cancel_left,
    LinePosition.behind, Line.ofText, hfront]
  simp

end Source

end LosslessSyntax
