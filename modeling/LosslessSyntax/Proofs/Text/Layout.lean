import LosslessSyntax.Text.Source

/-!
# Layouts of a text

A text that is divided into pieces is given by the text of each piece and its span. `Layout` says
that the pieces make up a stretch of the text, in order, none of them empty; it is what a scanner
establishes piece by piece (`Layout.append`). From a layout follow what can be said without it:

* the spans tile the stretch, without a gap and without an overlap (`Layout.tile`);
* each piece is what the source has at its span, hence no span cuts a character in two
  (`Layout.slice`);
* the pieces together spell the stretch (`Layout.join`).
-/

namespace LosslessSyntax

/-! ### Cutting at offsets that were measured -/

theorem byteLength_toList (s : String) : byteLength s.toList = s.utf8ByteSize := by
  rw [← utf8ByteSize_ofList, String.ofList_toList]

theorem byteLength_pos {cs : List Char} (h : cs ≠ []) : 0 < byteLength cs := by
  obtain ⟨c, cs, rfl⟩ := List.exists_cons_of_ne_nil h
  have := c.utf8Size_pos
  rw [byteLength_cons]
  omega

private theorem utf8Size_add_eq_succ (c : Char) (count : Nat) :
    ∃ n, c.utf8Size + count = n + 1 :=
  Nat.exists_eq_succ_of_ne_zero (Nat.ne_of_gt (Nat.add_pos_left c.utf8Size_pos count))

private theorem dropBytes?_utf8Size_add (c : Char) (count : Nat) (cs : List Char) :
    dropBytes? (c.utf8Size + count) (c :: cs) = dropBytes? count cs := by
  obtain ⟨n, hn⟩ := utf8Size_add_eq_succ c count
  rw [hn, dropBytes?, if_pos (hn ▸ Nat.le_add_right _ _), ← hn, Nat.add_sub_cancel_left]

private theorem takeBytes?_utf8Size_add (c : Char) (count : Nat) (cs : List Char) :
    takeBytes? (c.utf8Size + count) (c :: cs) = (takeBytes? count cs).map (c :: ·) := by
  obtain ⟨n, hn⟩ := utf8Size_add_eq_succ c count
  rw [hn, takeBytes?, if_pos (hn ▸ Nat.le_add_right _ _), ← hn, Nat.add_sub_cancel_left]

/-- A text can be cut after any front part. -/
theorem dropBytes?_byteLength_append (front cs : List Char) :
    dropBytes? (byteLength front) (front ++ cs) = some cs := by
  induction front with
  | nil => cases cs <;> rfl
  | cons c front ih => rw [byteLength_cons, List.cons_append, dropBytes?_utf8Size_add, ih]

/-- The first bytes of a text, as many as a front part has, are this part. -/
theorem takeBytes?_byteLength_append (front cs : List Char) :
    takeBytes? (byteLength front) (front ++ cs) = some front := by
  induction front with
  | nil => cases cs <;> rfl
  | cons c front ih =>
    rw [byteLength_cons, List.cons_append, takeBytes?_utf8Size_add, ih, Option.map_some]

/-- The first bytes of a text are a front part of it. -/
theorem takeBytes?_eq_some_iff {count : Nat} {cs front : List Char} :
    takeBytes? count cs = some front ↔ ∃ back, cs = front ++ back ∧ count = byteLength front := by
  constructor
  · intro h
    fun_induction takeBytes? count cs generalizing front with
    | case1 cs =>
      obtain rfl := Option.some.inj h
      exact ⟨cs, rfl, rfl⟩
    | case2 => cases h
    | case3 count c cs hle ih =>
      obtain ⟨others, hothers, rfl⟩ := Option.map_eq_some_iff.mp h
      obtain ⟨back, rfl, hcount⟩ := ih hothers
      exact ⟨back, rfl, by rw [byteLength_cons]; omega⟩
    | case4 => cases h
  · rintro ⟨back, rfl, rfl⟩
    exact takeBytes?_byteLength_append front back

theorem Source.length_eq {source : Source} {front cs : List Char}
    (htext : source.text.toList = front ++ cs) :
    source.length = byteLength front + byteLength cs := by
  rw [length, ← byteLength_toList, htext, byteLength_append]

/-- A source has at a span behind a front part what the text goes on with there. -/
theorem Source.slice_eq_ok_iff {source : Source} {front cs : List Char}
    (htext : source.text.toList = front ++ cs) {length : Nat} {piece : String} :
    source.slice ⟨byteLength front, length⟩ = .ok piece ↔
      ∃ back, cs = piece.toList ++ back ∧ length = byteLength piece.toList := by
  rw [← takeBytes?_eq_some_iff, slice, htext, dropBytes?_byteLength_append, Option.bind_some]
  cases takeBytes? length cs with
  | none => exact iff_of_false nofun nofun
  | some ds => rw [Except.ok.injEq, Option.some_inj, ← String.toList_inj, String.toList_ofList]

/-- The character at a position behind a front part is the first one behind it. -/
theorem Source.charAt_eq_ok_iff {source : Source} {front cs : List Char}
    (htext : source.text.toList = front ++ cs) {c : Char} :
    source.charAt (byteLength front) = .ok c ↔ cs.head? = some c := by
  rw [charAt, htext, dropBytes?_byteLength_append]
  cases cs with
  | nil => exact iff_of_false nofun nofun
  | cons d cs => rw [Except.ok.injEq, List.head?_cons, Option.some_inj]

/-- A source has at a span what stands there. -/
theorem Source.slice_ofList_append (before piece after : List Char) :
    (Source.ofString (String.ofList (before ++ (piece ++ after)))).slice
      ⟨byteLength before, byteLength piece⟩ = .ok (String.ofList piece) := by
  have hdrop := dropBytes?_byteLength_append before (piece ++ after)
  have htake := takeBytes?_byteLength_append piece after
  simp only [Source.slice, Source.ofString, String.toList_ofList, hdrop, Option.bind_some, htake]

/-! ### Tilings and layouts -/

/-- Spans that lie one behind the other from one offset to another, none of them empty. -/
inductive Span.Tile : Nat → Nat → List Span → Prop
  | nil (position : Nat) : Tile position position []
  | cons {start stop : Nat} {span : Span} {spans : List Span} (hstart : span.start = start)
      (hlength : 0 < span.length) (htile : Tile span.stop stop spans) :
      Tile start stop (span :: spans)

/-- Spans in the order of their starts. -/
def Span.Ordered (spans : List Span) : Prop :=
  spans.Pairwise fun a b => a.start ≤ b.start

namespace Span.Tile

variable {start stop : Nat} {spans : List Span}

theorem le (h : Tile start stop spans) : start ≤ stop := by
  induction h with
  | nil => exact Nat.le_refl _
  | cons hstart _ _ ih => exact hstart ▸ Nat.le_trans (Nat.le_add_right _ _) ih

/-- The spans of a tiling start within its stretch. -/
theorem start_mem (h : Tile start stop spans) :
    ∀ span ∈ spans, start ≤ span.start ∧ span.start ≤ stop := by
  induction h with
  | nil => nofun
  | @cons start stop span spans hstart hlength htile ih =>
    have hle : start ≤ span.stop := hstart ▸ Nat.le_add_right _ _
    refine List.forall_mem_cons.mpr ⟨?_, fun other hother => ?_⟩
    · exact ⟨Nat.le_of_eq hstart.symm, Nat.le_trans (Nat.le_add_right _ _) htile.le⟩
    · exact ⟨Nat.le_trans hle (ih other hother).1, (ih other hother).2⟩

/-- None of them starts where the stretch ends. -/
theorem start_lt (h : Tile start stop spans) : ∀ span ∈ spans, span.start < stop := by
  induction h with
  | nil => nofun
  | cons _ hlength htile ih =>
    exact List.forall_mem_cons.mpr
      ⟨Nat.lt_of_lt_of_le (Nat.lt_add_of_pos_right hlength) htile.le, ih⟩

/-- None of them goes beyond the end of the stretch. -/
theorem stop_le (h : Tile start stop spans) : ∀ span ∈ spans, span.stop ≤ stop := by
  induction h with
  | nil => nofun
  | cons _ _ htile ih => exact List.forall_mem_cons.mpr ⟨htile.le, ih⟩

/-- Each place within the stretch is in one of the spans. -/
theorem exists_mem (h : Tile start stop spans) {position : Nat} (hstart : start ≤ position)
    (hstop : position < stop) : ∃ span ∈ spans, span.start ≤ position ∧ position < span.stop := by
  induction h with
  | nil => omega
  | @cons start stop span spans hspan hlength htile ih =>
    by_cases hfirst : position < span.stop
    · exact ⟨span, List.mem_cons_self, by omega, hfirst⟩
    · obtain ⟨other, hmem, hother⟩ := ih (Nat.le_of_not_lt hfirst) hstop
      exact ⟨other, List.mem_cons_of_mem _ hmem, hother⟩

/-- Each starts behind those before it. -/
theorem increasing (h : Tile start stop spans) : spans.Pairwise fun a b => a.start < b.start := by
  induction h with
  | nil => exact .nil
  | cons _ hlength htile ih =>
    refine .cons (fun other hother => ?_) ih
    exact Nat.lt_of_lt_of_le (Nat.lt_add_of_pos_right hlength) (htile.start_mem other hother).1

/-- Each starts where those before it have ended. -/
theorem disjoint (h : Tile start stop spans) : spans.Pairwise fun a b => a.stop ≤ b.start := by
  induction h with
  | nil => exact .nil
  | cons _ _ htile ih => exact .cons (fun other hother => (htile.start_mem other hother).1) ih

theorem ordered (h : Tile start stop spans) : Ordered spans :=
  h.increasing.imp Nat.le_of_lt

end Span.Tile

/-- A piece of a text, with the span at which it stands. -/
structure Piece where
  text : String
  span : Span
deriving DecidableEq, Repr

/-- The stretch of a text that stands at a position is made up of some pieces, none of them empty.
-/
inductive Layout : Nat → List Char → List Piece → Prop
  | nil (position : Nat) : Layout position [] []
  | cons {position : Nat} {piece cs : List Char} {pieces : List Piece} (hpiece : piece ≠ [])
      (hrest : Layout (position + byteLength piece) cs pieces) :
      Layout position (piece ++ cs)
        (⟨String.ofList piece, position, byteLength piece⟩ :: pieces)

namespace Layout

variable {position : Nat} {cs : List Char} {pieces : List Piece}

/-- Two stretches that follow one another. -/
theorem append {ds : List Char} {others : List Piece} (h : Layout position cs pieces)
    (hothers : Layout (position + byteLength cs) ds others) :
    Layout position (cs ++ ds) (pieces ++ others) := by
  induction h with
  | nil => simpa using hothers
  | cons hpiece _ ih =>
    rw [List.append_assoc, List.cons_append]
    refine cons hpiece (ih ?_)
    rwa [byteLength_append, ← Nat.add_assoc] at hothers

/-- The spans of a layout tile its stretch. -/
theorem tile (h : Layout position cs pieces) :
    Span.Tile position (position + byteLength cs) (pieces.map Piece.span) := by
  induction h with
  | nil position => exact .nil position
  | cons hpiece _ ih =>
    refine .cons rfl (byteLength_pos hpiece) ?_
    rwa [byteLength_append, ← Nat.add_assoc]

/-- The first piece starts where the stretch does. -/
theorem head?_start (h : Layout position cs pieces) :
    (pieces.head?.map fun piece => piece.span.start).getD (position + byteLength cs) =
      position := by
  cases h <;> rfl

/-- The last piece ends where the stretch does. -/
theorem getLast?_stop (h : Layout position cs pieces) :
    (pieces.getLast?.map fun piece => piece.span.stop).getD position =
      position + byteLength cs := by
  induction h with
  | nil => rfl
  | cons _ _ ih =>
    rw [byteLength_append, ← Nat.add_assoc, ← ih, List.getLast?_cons, Option.map_some,
      Option.getD_some]
    exact (Option.getD_map (fun piece : Piece => piece.span.stop) _ _).symm

/-- The pieces of a layout spell its stretch. -/
theorem join (h : Layout position cs pieces) :
    String.join (pieces.map Piece.text) = String.ofList cs := by
  induction h with
  | nil => rfl
  | cons _ _ ih => rw [List.map_cons, String.join_cons, ih, String.ofList_append]

/-- A source has at the span of each piece the text of the piece. -/
theorem slice (before : List Char) (h : Layout (byteLength before) cs pieces) :
    ∀ piece ∈ pieces,
      (Source.ofString (String.ofList (before ++ cs))).slice piece.span = .ok piece.text := by
  -- The text before the stretch grows by each piece that the induction passes.
  generalize hp : byteLength before = position at h
  induction h generalizing before with
  | nil => nofun
  | @cons position piece cs pieces _ _ ih =>
    subst hp
    refine List.forall_mem_cons.mpr ⟨Source.slice_ofList_append before piece cs, ?_⟩
    have := ih (before ++ piece) (byteLength_append before piece)
    rwa [List.append_assoc] at this

end Layout

end LosslessSyntax
