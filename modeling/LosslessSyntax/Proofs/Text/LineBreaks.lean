import LosslessSyntax.Proofs.Text.Places
import Mathlib.Data.List.Forall2

/-!
# Texts with line feeds only

`unifyBreaks` writes every line break of a text as a line feed. What it makes of a source is the
texts of its lines with a line feed between any two (`Source.unified_ofString`).

A text may be unified part by part, where it may be divided (`unifyBreaks_append`). Its lines keep
their number and their lengths, hence the place behind a front part is the same as before
(`LinePosition.behind_unifyBreaks`), although the position may be another.
-/

namespace LosslessSyntax

theorem isBreak_iff {c : Char} : isBreak c = true ↔ c = '\r' ∨ c = '\n' := by
  simp [isBreak]

/-- A part without breaks may be divided from anything. -/
theorem apart_of_isBreak_eq_false {front : List Char} (h : ∀ c ∈ front, isBreak c = false)
    (back : List Char) : Apart front back := fun hlast =>
  absurd (h '\r' (List.mem_of_mem_getLast? hlast)) (by decide)

/-- A text with a line feed for every line break. -/
def unifyBreaks : List Char → List Char
  | [] => []
  | '\r' :: '\n' :: cs => '\n' :: unifyBreaks cs
  | '\r' :: cs => '\n' :: unifyBreaks cs
  | c :: cs => c :: unifyBreaks cs

theorem unifyBreaks_cons {c : Char} (hc : c ≠ '\r') (cs : List Char) :
    unifyBreaks (c :: cs) = c :: unifyBreaks cs := by
  rw [unifyBreaks]
  · exact fun _ h _ => hc h
  · exact hc

theorem unifyBreaks_return {cs : List Char} (hcs : cs.head? ≠ some '\n') :
    unifyBreaks ('\r' :: cs) = '\n' :: unifyBreaks cs := by
  rw [unifyBreaks]
  rintro ds rfl
  exact hcs rfl

/-- A text without breaks is as it was. -/
theorem unifyBreaks_eq_self {cs : List Char} (h : ∀ c ∈ cs, isBreak c = false) :
    unifyBreaks cs = cs := by
  induction cs with
  | nil => rfl
  | cons c cs ih =>
    obtain ⟨hc, hcs⟩ := List.forall_mem_cons.mp h
    rw [unifyBreaks_cons (by rintro rfl; cases hc), ih hcs]

/-- A text may be unified part by part. -/
theorem unifyBreaks_append {front back : List Char} (h : Apart front back) :
    unifyBreaks (front ++ back) = unifyBreaks front ++ unifyBreaks back := by
  fun_induction unifyBreaks front with
  | case1 => rfl
  | case2 cs ih => rw [List.cons_append, List.cons_append, unifyBreaks, ih h.of_cons.of_cons,
      List.cons_append]
  | case3 cs hne ih =>
    have hfeed : (cs ++ back).head? ≠ some '\n' := by
      cases cs with
      | nil => exact h rfl
      | cons c cs => exact fun hc => hne cs (congrArg (· :: cs) (Option.some.inj hc))
    rw [List.cons_append, unifyBreaks_return hfeed, ih h.of_cons, List.cons_append]
  | case4 c cs _ hc ih =>
    rw [List.cons_append, unifyBreaks_cons hc, ih h.of_cons, List.cons_append]

theorem return_not_mem_unifyBreaks (cs : List Char) : '\r' ∉ unifyBreaks cs := by
  fun_induction unifyBreaks cs with
  | case1 => exact List.not_mem_nil
  | case2 cs ih | case3 cs _ ih =>
    rw [List.mem_cons, not_or]
    exact ⟨by decide, ih⟩
  | case4 c cs _ hc ih =>
    rw [List.mem_cons, not_or]
    exact ⟨fun h => hc h.symm, ih⟩

/-- A text in which all breaks are line feeds may be divided anywhere. -/
theorem apart_unifyBreaks (front back : List Char) : Apart (unifyBreaks front) back := fun hlast =>
  absurd (List.mem_of_mem_getLast? hlast) (return_not_mem_unifyBreaks front)

/-- What becomes of a character in a unified text. -/
private theorem ite_isBreak_of_ne {c : Char} (hc : c ≠ '\r') :
    (if isBreak c then '\n' else c) = c := by
  split
  · next hbreak => exact ((isBreak_iff.mp hbreak).resolve_left hc).symm
  · rfl

/-- Where a unified text begins with no break it begins as before. -/
theorem head?_unifyBreaks (cs : List Char) :
    (unifyBreaks cs).head? = cs.head?.map fun c => if isBreak c then '\n' else c := by
  fun_induction unifyBreaks cs with
  | case1 | case2 | case3 => rfl
  | case4 c cs _ hc _ =>
    rw [List.head?_cons, List.head?_cons, Option.map_some, ite_isBreak_of_ne hc]

theorem head?_unifyBreaks_eq_some {d : Char} (hd : isBreak d = false) {cs : List Char} :
    (unifyBreaks cs).head? = some d ↔ cs.head? = some d := by
  rw [head?_unifyBreaks]
  cases cs.head? with
  | none => rfl
  | some c =>
    rw [Option.map_some, Option.some_inj, Option.some_inj]
    split
    · next hbreak =>
      refine ⟨fun h => ?_, fun h => ?_⟩
      · rw [← h] at hd
        cases hd
      · rw [h, hd] at hbreak
        cases hbreak
    · rfl

theorem exists_unifyBreaks_eq_cons {c : Char} (hc : isBreak c = true) (cs : List Char) :
    ∃ ds, unifyBreaks (c :: cs) = '\n' :: ds := by
  rw [← List.head?_eq_some_iff, head?_unifyBreaks, List.head?_cons, Option.map_some, if_pos hc]

/-- Where a unified text ends with no break it ends as before. -/
theorem getLast?_unifyBreaks (cs : List Char) :
    (unifyBreaks cs).getLast? = cs.getLast?.map fun c => if isBreak c then '\n' else c := by
  fun_induction unifyBreaks cs with
  | case1 => rfl
  | case2 cs ih =>
    rw [List.getLast?_cons, List.getLast?_cons, List.getLast?_cons, ih]
    cases cs.getLast? <;> rfl
  | case3 cs _ ih =>
    rw [List.getLast?_cons, List.getLast?_cons, ih]
    cases cs.getLast? <;> rfl
  | case4 c cs _ hc ih =>
    rw [List.getLast?_cons, List.getLast?_cons, ih, Option.map_some]
    cases cs.getLast? with
    | none => exact congrArg some (ite_isBreak_of_ne hc).symm
    | some d => rfl

/-! ### Lines -/

/-- The lines of a unified text are as many and as long as before. -/
theorem Line.map_length_scan_unifyBreaks (start start' length : Nat) (cs : List Char) :
    (scan start length (unifyBreaks cs)).map Line.length =
      (scan start' length cs).map Line.length := by
  fun_induction unifyBreaks cs generalizing start start' length with
  | case1 => rfl
  | case2 cs ih => rw [scan, scan, List.map_cons, List.map_cons, ih]
  | case3 cs hne ih =>
    rw [scan, scan, List.map_cons, List.map_cons, ih]
    exact hne
  | case4 c cs hpair hc ih =>
    by_cases hfeed : c = '\n'
    · subst hfeed
      rw [scan, scan, List.map_cons, List.map_cons, ih]
    · rw [scan, scan, ih]
      all_goals first | exact hpair | exact hc | exact hfeed | exact fun _ h _ => hc h

/-- The place behind a text does not depend on how its breaks are written. -/
theorem LinePosition.behind_unifyBreaks (cs : List Char) :
    behind (unifyBreaks cs) = behind cs := by
  have hlengths := Line.map_length_scan_unifyBreaks 0 0 0 cs
  have hlength := congrArg List.length hlengths
  rw [List.length_map, List.length_map] at hlength
  rw [behind, behind, Line.ofText, Line.ofText, hlengths, hlength]

namespace Source

/-- The place behind a front part is the same in the unified text. -/
theorem linePosition_unifyBreaks {front back : List Char} (h : Apart front back) :
    (ofString (String.ofList (unifyBreaks (front ++ back)))).linePosition
        (byteLength (unifyBreaks front)) =
      (ofString (String.ofList (front ++ back))).linePosition (byteLength front) := by
  rw [unifyBreaks_append h, linePosition_byteLength (apart_unifyBreaks front _),
    linePosition_byteLength h, LinePosition.behind_unifyBreaks]

/-- The texts of all lines, with a line feed between any two. -/
def unified (source : Source) : Except Fault String := do
  return "\n".intercalate (← source.lines.toList.mapM fun line => source.slice line.span)

private theorem slice_of_text {source : Source} {before piece after : List Char}
    (h : source.text = String.ofList (before ++ (piece ++ after))) :
    source.slice ⟨byteLength before, byteLength piece⟩ = .ok (String.ofList piece) := by
  rw [← slice_ofList_append before piece after, slice, h]
  rfl

private theorem mapM_eq_ok {α β ε : Type} {f : α → Except ε β} {xs : List α} {ys : List β}
    (h : List.Forall₂ (fun x y => f x = .ok y) xs ys) : xs.mapM f = .ok ys := by
  induction h with
  | nil => rfl
  | cons hx _ ih =>
    rw [List.mapM_cons, hx, ih]
    rfl

/-- At some lines, of which the first is already begun, a source has the text `cs`, if its breaks
are line feeds. -/
private def Reads (source : Source) (begun : List Char) (lines : List Line) (cs : List Char) :
    Prop :=
  ∃ first others,
    List.Forall₂ (fun line text => source.slice line.span = .ok text) lines
      ((String.ofList begun ++ first) :: others) ∧
    "\n".intercalate (first :: others) = String.ofList (unifyBreaks cs)

/-- What was begun is the text of a line when its break comes. -/
private theorem Reads.of_break {source : Source} {before begun after cs cs' : List Char}
    {lines : List Line} (hsource : source.text = String.ofList (before ++ (begun ++ after)))
    (hcs' : unifyBreaks cs' = '\n' :: unifyBreaks cs) (h : source.Reads [] lines cs)
    (lengthWithBreak : Nat) :
    source.Reads begun (⟨byteLength before, byteLength begun, lengthWithBreak⟩ :: lines) cs' := by
  obtain ⟨first, others, hlines, hjoin⟩ := h
  rw [String.ofList_nil, String.empty_append] at hlines
  refine ⟨"", first :: others, .cons ?_ hlines, ?_⟩
  · rw [String.append_empty]
    exact slice_of_text hsource
  · rw [String.intercalate_cons_cons, hjoin, hcs', String.ofList_cons, String.empty_append]
    rfl

private theorem reads_scan (source : Source) (before begun cs : List Char)
    (hsource : source.text = String.ofList (before ++ (begun ++ cs))) :
    source.Reads begun (Line.scan (byteLength before) (byteLength begun) cs) cs := by
  -- The next line stands behind what was begun and the break.
  have hnext : ∀ before begun brk : List Char, byteLength (before ++ (begun ++ brk)) =
      byteLength before + (byteLength begun + byteLength brk) := fun before begun brk => by
    rw [byteLength_append, byteLength_append]
  fun_induction unifyBreaks cs generalizing before begun with
  | case1 =>
    refine ⟨"", [], .cons ?_ .nil, rfl⟩
    rw [String.append_empty]
    exact slice_of_text hsource
  | case2 cs ih =>
    have hread := ih (before ++ (begun ++ ['\r', '\n'])) [] (by simpa using hsource)
    rw [byteLength_nil, hnext] at hread
    exact hread.of_break hsource rfl _
  | case3 cs hne ih =>
    have hread := ih (before ++ (begun ++ ['\r'])) [] (by simpa using hsource)
    rw [byteLength_nil, hnext] at hread
    rw [Line.scan]
    · exact hread.of_break hsource (unifyBreaks.eq_3 cs hne) _
    · exact hne
  | case4 c cs hpair hc ih =>
    by_cases hfeed : c = '\n'
    · subst hfeed
      have hread := ih (before ++ (begun ++ ['\n'])) [] (by simpa using hsource)
      rw [byteLength_nil, hnext] at hread
      exact hread.of_break hsource (unifyBreaks_cons hc cs) _
    · obtain ⟨first, others, hlines, hjoin⟩ := ih before (begun ++ [c]) (by simpa using hsource)
      rw [Line.scan]
      · refine ⟨String.singleton c ++ first, others, ?_, ?_⟩
        · rw [byteLength_append, byteLength_cons, byteLength_nil, Nat.add_zero] at hlines
          rwa [String.ofList_append, String.append_assoc] at hlines
        · rw [String.intercalate_cons_append, hjoin, unifyBreaks_cons hc]
          simp
      · exact hpair
      · exact hc
      · exact hfeed

/-- The lines of a source with line feeds between them are its text with line feeds only. -/
theorem unified_ofString (text : String) :
    (ofString text).unified = .ok (String.ofList (unifyBreaks text.toList)) := by
  obtain ⟨first, others, hlines, hjoin⟩ := reads_scan (ofString text) [] [] text.toList (by
    rw [List.nil_append, List.nil_append, String.ofList_toList, ofString])
  rw [String.ofList_nil, String.empty_append] at hlines
  have hmap : (ofString text).lines.toList.mapM (fun line => (ofString text).slice line.span) =
      .ok (first :: others) := mapM_eq_ok hlines
  rw [unified, hmap, ← hjoin]
  rfl

example : (ofString "a\r\r\nb\n\r").unified = .ok "a\n\nb\n\n" := by
  decide +kernel

end Source

end LosslessSyntax
