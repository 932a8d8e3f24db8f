import LosslessSyntax.Proofs.Text.Breaks
import LosslessSyntax.Proofs.Token.Trivia

/-!
# Tokens and the table of lines

The lexer and the table of lines of a source find the same breaks, though one goes from line to line
and the other from token to token. An item of trivia begins and ends where the text may be divided
(`Trivia.StandsAt.le_or_le`), so that a break lies in an item as a whole or not at all. All the text
is covered by tokens and trivia, and only an end of a line and a block comment have breaks in them
(`endsLine_tokenize`).
-/

namespace LosslessSyntax

open Source

section

variable {text : String} {front : List Char}

/-! ### Trivia -/

namespace Trivia.StandsAt

variable {cut : Cut TriviaKind} {item : Trivia}

/-- A break does not go across an end of an item of trivia. -/
theorem le_or_le (h : item.StandsAt front cut)
    (htext : text.toList = front ++ (cut.piece ++ cut.rest)) {span : Span}
    (hspan : (ofString text).EndsLine span) :
    (item.span.start ≤ span.start ∨ span.stop ≤ item.span.start) ∧
      (item.span.stop ≤ span.start ∨ span.stop ≤ item.span.stop) := by
  obtain rfl := h.eq_ofCut
  have hstop := hspan.le_or_le (by rw [htext, List.append_assoc])
    (h.apart.append (apart_of_next? h.next?_eq))
  rw [byteLength_append] at hstop
  exact ⟨hspan.le_or_le htext h.apart, hstop⟩

/-- An end of a line is a break. -/
theorem wholeBreak (h : item.StandsAt front cut) (hkind : item.kind = .endOfLine) :
    WholeBreak front cut.piece cut.rest where
  spelled := by
    have hform := form_of_next? h.next?_eq
    have hcut : cut.kind = .endOfLine := by rwa [h.eq_ofCut] at hkind
    generalize cut.kind = kind, cut.piece = piece, cut.rest = rest at hform hcut
    subst hcut
    cases hform with
    | lineFeed => exact .inl rfl
    | carriageReturn => exact .inr (.inl rfl)
    | returnFeed => exact .inr (.inr rfl)
  before := h.apart
  behind := apart_of_next? h.next?_eq

/-- Blanks and comments of one line are on a line. -/
theorem onOneLine (h : item.StandsAt front cut)
    (htext : text.toList = front ++ (cut.piece ++ cut.rest))
    (hkind : item.kind = .whitespace ∨ item.kind = .singleLineComment) :
    (ofString text).OnOneLine item.span := by
  have hpiece : ∀ c ∈ cut.piece, isBreak c = false := by
    have hform := form_of_next? h.next?_eq
    have hcut : cut.kind = .whitespace ∨ cut.kind = .singleLineComment := by
      rwa [h.eq_ofCut] at hkind
    generalize cut.kind = kind, cut.piece = piece, cut.rest = rest at hform hcut
    cases hform with
    | whitespace _ hblank _ =>
      intro c hc
      rw [Bool.eq_false_iff]
      exact fun hbreak => absurd (hblank c hc) (by simp [isBlank_of_isBreak c hbreak])
    | lineComment hbody _ =>
      exact List.forall_mem_cons.mpr ⟨rfl, List.forall_mem_cons.mpr ⟨rfl, hbody⟩⟩
    | lineFeed | returnFeed | carriageReturn | blockComment | unclosedComment =>
      rcases hcut with hcut | hcut <;> cases hcut
  obtain rfl := h.eq_ofCut
  exact Source.onOneLine htext h.apart hpiece

end Trivia.StandsAt

/-! ### Tokens -/

theorem Token.onOneLine {token : Token} (htoken : token ∈ tokenize text) :
    (ofString text).OnOneLine token.span := by
  obtain ⟨front, cs, htext, hstands, -⟩ := exists_standsAt_of_mem_tokenize text token htoken
  have hapart := apart_of_next?_eq_none hstands.next?_eq_none front
  have hstart := hstands.start_eq
  have hlength := hstands.length_eq
  obtain ⟨rest, rfl, hvalue, -⟩ := hstands.exists_rest
  have hspan : token.span = ⟨byteLength front, byteLength token.value.toList⟩ := by
    rw [← hstart, ← hlength]
  rw [hspan]
  exact Source.onOneLine htext hapart hvalue

end

/-- A place in a text is within a token or an item of trivia. -/
theorem exists_span_of_lt {text : String} {position : Nat} (h : position < text.utf8ByteSize) :
    ∃ span, span.start ≤ position ∧ position < span.stop ∧
      ((∃ token ∈ tokenize text, token.span = span) ∨
        ∃ item ∈ (tokenize text).flatMap Token.trivia, item.span = span) := by
  have htile := (layout_tokenize text).tile
  rw [Nat.zero_add, byteLength_toList] at htile
  obtain ⟨span, hspan, hstart, hstop⟩ := htile.exists_mem (Nat.zero_le position) h
  refine ⟨span, hstart, hstop, ?_⟩
  obtain ⟨piece, hpiece, rfl⟩ := List.mem_map.mp hspan
  obtain ⟨token, htoken, hpiece⟩ := List.mem_flatMap.mp hpiece
  have htrivia : ∀ item ∈ token.trivia, item ∈ (tokenize text).flatMap Token.trivia :=
    fun item hitem => List.mem_flatMap.mpr ⟨token, htoken, hitem⟩
  simp only [Token.pieces, List.mem_append, List.mem_map] at hpiece
  rcases hpiece with ⟨item, hitem, rfl⟩ | hpiece | ⟨item, hitem, rfl⟩
  · exact .inr ⟨item, htrivia item (List.mem_append_left _ hitem), rfl⟩
  · split at hpiece
    · cases hpiece
    · exact .inl ⟨token, htoken, by rw [List.mem_singleton.mp hpiece]⟩
  · exact .inr ⟨item, htrivia item (List.mem_append_right _ hitem), rfl⟩

/-- **The lexer and the table of lines agree.** An item of trivia that ends a line has the span from
the end of a line in the table to the start of the next line. What is between two lines of the table
is such an item or lies in a block comment. No line ends within a token, within blanks or within a
comment of one line, nor across one of their ends, so that the table has both ends on one line. -/
theorem endsLine_tokenize (text : String) :
    (∀ item ∈ (tokenize text).flatMap Token.trivia, item.kind = .endOfLine →
      (ofString text).EndsLine item.span) ∧
    (∀ span, (ofString text).EndsLine span → ∃ item ∈ (tokenize text).flatMap Token.trivia,
      item.kind = .endOfLine ∧ item.span = span ∨
        item.kind = .multiLineComment ∧ item.span.start ≤ span.start ∧
          span.stop ≤ item.span.stop) ∧
    (∀ token ∈ tokenize text, (ofString text).OnOneLine token.span) ∧
    (∀ item ∈ (tokenize text).flatMap Token.trivia,
      item.kind = .whitespace ∨ item.kind = .singleLineComment →
        (ofString text).OnOneLine item.span) := by
  have hends : ∀ item ∈ (tokenize text).flatMap Token.trivia, item.kind = .endOfLine →
      (ofString text).EndsLine item.span := by
    intro item hitem hkind
    obtain ⟨front, cut, htext, hstands⟩ := exists_standsAt_of_mem_trivia text item hitem
    refine endsLine_iff.mpr ⟨front, cut.piece, cut.rest, htext, hstands.wholeBreak hkind, ?_⟩
    rw [hstands.eq_ofCut]
    rfl
  have hblank : ∀ item ∈ (tokenize text).flatMap Token.trivia,
      item.kind = .whitespace ∨ item.kind = .singleLineComment →
        (ofString text).OnOneLine item.span := by
    intro item hitem hkind
    obtain ⟨front, cut, htext, hstands⟩ := exists_standsAt_of_mem_trivia text item hitem
    exact hstands.onOneLine htext hkind
  refine ⟨hends, fun span hspan => ?_, fun token htoken => Token.onOneLine htoken, hblank⟩
  obtain ⟨hlt, hsize⟩ := hspan.bounds
  obtain ⟨around, hstart, hstop, hmem⟩ := exists_span_of_lt (Nat.lt_of_lt_of_le hlt hsize)
  rcases hmem with ⟨token, htoken, rfl⟩ | ⟨item, hitem, rfl⟩
  · have := (Token.onOneLine htoken).disjoint span hspan
    omega
  refine ⟨item, hitem, ?_⟩
  cases hkind : item.kind with
  | whitespace =>
    have := (hblank item hitem (.inl hkind)).disjoint span hspan
    omega
  | singleLineComment =>
    have := (hblank item hitem (.inr hkind)).disjoint span hspan
    omega
  | endOfLine =>
    exact .inl ⟨rfl, ((hends item hitem hkind).eq_or_disjoint hspan).resolve_right (by omega)⟩
  | multiLineComment =>
    obtain ⟨front, cut, htext, hstands⟩ := exists_standsAt_of_mem_trivia text item hitem
    have := (hstands.le_or_le htext hspan).2
    exact .inr ⟨rfl, hstart, by omega⟩

end LosslessSyntax
