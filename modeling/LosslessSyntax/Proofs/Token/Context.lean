import LosslessSyntax.Proofs.Token.LineBreaks

/-!
# Tokens where they stand

What the lexer knows of a token is the text behind a front part of the source and the last character
of this part. `Token.StandsAt` says of a token that it is read from there: a lexeme with the gap
behind it, or the end of the input where nothing is left. Every token of a text stands somewhere in
it (`exists_standsAt_of_mem_tokenize`), and so does all trivia (`exists_standsAt_of_mem_trivia`).

The front part and the text behind it never share a line break, as no token begins with one and no
item of trivia ends within one.
-/

namespace LosslessSyntax

/-! ### Trivia -/

/-- An item of trivia is cut off the text behind a front part, which may be divided there. -/
structure Trivia.StandsAt (front : List Char) (cut : Cut TriviaKind) (item : Trivia) : Prop where
  next?_eq : next? (cut.piece ++ cut.rest) = some cut
  apart : Apart front (cut.piece ++ cut.rest)
  eq_ofCut : item = ofCut (byteLength front) cut

namespace Gap

theorem head?_items (position : Nat) (cs : List Char) :
    (scan position cs).items.head? = (Trivia.next? cs).map (Trivia.ofCut position) := by
  cases hcut : Trivia.next? cs with
  | none => rw [scan_of_next?_eq_none hcut]; rfl
  | some cut => rw [scan_of_next?_eq_some hcut]; rfl

/-- An item of a gap stands behind a front part, and the items after it are those of the gap behind
it. -/
theorem exists_of_items_eq {front cs : List Char} (h : Apart front cs) {before after : List Trivia}
    {item : Trivia} (hitems : (scan (byteLength front) cs).items = before ++ item :: after) :
    ∃ passed cut, front ++ cs = passed ++ (cut.piece ++ cut.rest) ∧ item.StandsAt passed cut ∧
      after = (scan (byteLength (passed ++ cut.piece)) cut.rest).items ∧
      (scan (byteLength front) cs).rest =
        (scan (byteLength (passed ++ cut.piece)) cut.rest).rest := by
  generalize hposition : byteLength front = position at hitems ⊢
  fun_induction scan position cs generalizing front before with
  | case1 => exact absurd hitems.symm (List.append_ne_nil_of_right_ne_nil _ (List.cons_ne_nil _ _))
  | @case2 position cs cut hcut gap ih =>
    have happend := (Trivia.of_next? hcut).append_eq
    have hstop : byteLength (front ++ cut.piece) = position + byteLength cut.piece := by
      rw [byteLength_append, hposition]
    rw [← happend] at h hcut
    cases before with
    | nil =>
      obtain ⟨hitem, hafter⟩ := List.cons.inj hitems
      refine ⟨front, cut, by rw [happend], ⟨hcut, h, ?_⟩, ?_, ?_⟩
      · rw [hposition, hitem]
      · rw [hstop, ← hafter]
      · rw [hstop]
    | cons first before =>
      have hrest : Apart (front ++ cut.piece) cut.rest := h.append (Trivia.apart_of_next? hcut)
      obtain ⟨passed, cut', htext, hstands, hafter, hgap⟩ :=
        ih hrest hstop (List.cons.inj hitems).2
      rw [List.append_assoc, happend] at htext
      exact ⟨passed, cut', htext, hstands, hafter, hgap⟩

/-- The items of a gap stand in the text that it is part of. -/
theorem exists_standsAt_of_mem_scan {front cs : List Char} (h : Apart front cs) :
    ∀ item ∈ (scan (byteLength front) cs).items, ∃ passed cut,
      front ++ cs = passed ++ (cut.piece ++ cut.rest) ∧ item.StandsAt passed cut := by
  intro item hitem
  obtain ⟨before, after, hitems⟩ := List.append_of_mem hitem
  obtain ⟨passed, cut, htext, hstands, -, -⟩ := exists_of_items_eq h hitems
  exact ⟨passed, cut, htext, hstands⟩

end Gap

/-! ### Tokens -/

namespace Token

/-- A token is read from the text behind a front part: its lexeme and the gap after it, or the end
of the input. -/
inductive StandsAt (front : List Char) : List Char → Token → Prop
  | endOfInput {leading : List Trivia} :
      StandsAt front [] { endAt (byteLength front) with leading := leading }
  | lexeme {c : Char} {cs : List Char} {lexeme : Cut TokenKind} {leading : List Trivia}
      (hnone : Trivia.next? (c :: cs) = none)
      (hlexeme : Lexeme.next front.getLast? c cs = lexeme) :
      StandsAt front (c :: cs) (ofCut (byteLength front) lexeme leading
        (Gap.scan (byteLength (front ++ lexeme.piece)) lexeme.rest).items)

/-- Where no trivia is a text may be divided. -/
theorem apart_of_next?_eq_none {cs : List Char} (h : Trivia.next? cs = none) (front : List Char) :
    Apart front cs := by
  rintro - hfeed
  obtain ⟨ds, rfl⟩ := List.head?_eq_some_iff.mp hfeed
  cases h

theorem StandsAt.next?_eq_none {front cs : List Char} {token : Token}
    (h : token.StandsAt front cs) : Trivia.next? cs = none := by
  cases h with
  | endOfInput => rfl
  | lexeme hnone _ => exact hnone

theorem StandsAt.start_eq {front cs : List Char} {token : Token} (h : token.StandsAt front cs) :
    token.span.start = byteLength front := by
  cases h <;> rfl

theorem StandsAt.length_eq {front cs : List Char} {token : Token} (h : token.StandsAt front cs) :
    token.span.length = byteLength token.value.toList := by
  cases h with
  | endOfInput => rfl
  | lexeme => rw [ofCut, String.toList_ofList]

/-- A token has no breaks in it, and the trivia after it is the gap behind its text. -/
theorem StandsAt.exists_rest {front cs : List Char} {token : Token} (h : token.StandsAt front cs) :
    ∃ rest, cs = token.value.toList ++ rest ∧ (∀ c ∈ token.value.toList, isBreak c = false) ∧
      token.trailing = (Gap.scan (byteLength (front ++ token.value.toList)) rest).items := by
  cases h with
  | endOfInput =>
    have hnone : Trivia.next? [] = none := rfl
    exact ⟨[], rfl, nofun, (congrArg Gap.items (Gap.scan_of_next?_eq_none hnone _)).symm⟩
  | @lexeme c cs lexeme leading hnone hlexeme =>
    have hbreak := Trivia.isBreak_eq_false_of_next?_eq_none hnone
    have happend := (Lexeme.of_next front.getLast? c cs).append_eq
    subst hlexeme
    rw [ofCut, String.toList_ofList]
    exact ⟨_, happend.symm, (Lexeme.unbroken_next front.getLast? hbreak cs).isBreak_eq_false, rfl⟩

/-- The text behind a token may be divided from it. -/
theorem StandsAt.apart {front rest : List Char} {token : Token}
    (h : token.StandsAt front (token.value.toList ++ rest))
    (hvalue : ∀ c ∈ token.value.toList, isBreak c = false) :
    Apart (front ++ token.value.toList) rest :=
  (apart_of_next?_eq_none h.next?_eq_none front).append (apart_of_isBreak_eq_false hvalue rest)

/-- The tokens of a text stand in it. Only the first one has the trivia that is brought along. -/
private theorem exists_standsAt_of_mem_scan (leading : List Trivia) (front : List Char)
    {cs : List Char} (hnone : Trivia.next? cs = none) :
    ∀ token ∈ scan leading front.getLast? (byteLength front) cs, ∃ before rest,
      front ++ cs = before ++ rest ∧ token.StandsAt before rest ∧
      (token.leading = [] ∨ token.leading = leading ∧ before = front) := by
  generalize hbefore : front.getLast? = before
  generalize hposition : byteLength front = position
  fun_induction scan leading before position cs generalizing front with
  | case1 leading before position =>
    subst hposition
    exact List.forall_mem_singleton.mpr ⟨front, [], rfl, .endOfInput, .inr ⟨rfl, rfl⟩⟩
  | @case2 leading before position c cs lexeme stop gap ih =>
    subst hbefore hposition
    have hlexeme := Lexeme.of_next front.getLast? c cs
    have hgap : gap.piece ++ gap.rest = lexeme.rest := Gap.scan_append _ _
    have htext : front ++ (lexeme.piece ++ gap.piece) ++ gap.rest = front ++ c :: cs := by
      rw [List.append_assoc, List.append_assoc, hgap, hlexeme.append_eq]
    have hstop : byteLength (front ++ lexeme.piece) = stop := byteLength_append _ _
    -- The lexeme is not empty, so that its last character or one of the gap is before what follows.
    have hlast : (front ++ (lexeme.piece ++ gap.piece)).getLast? =
        (lexeme.piece ++ gap.piece).getLast? :=
      List.getLast?_append_of_ne_nil _ (List.append_ne_nil_of_left_ne_nil hlexeme.piece_ne_nil _)
    have hbehind := ih (front ++ (lexeme.piece ++ gap.piece)) (Gap.next?_rest _ _) hlast
      (by rw [byteLength_append, byteLength_append, ← Nat.add_assoc])
    rw [htext] at hbehind
    refine List.forall_mem_cons.mpr ⟨⟨front, c :: cs, rfl, ?_, .inr ⟨rfl, rfl⟩⟩, ?_⟩
    · have hstands : StandsAt front (c :: cs) (ofCut (byteLength front) lexeme leading
          (Gap.scan (byteLength (front ++ lexeme.piece)) lexeme.rest).items) := .lexeme hnone rfl
      rwa [hstop] at hstands
    · intro token htoken
      obtain ⟨before, rest, happend, hstands, hleading⟩ := hbehind token htoken
      exact ⟨before, rest, happend, hstands, .inl (hleading.elim id And.left)⟩

end Token

/-- Every token of a text stands in it. The trivia before it is that at the front of the text, or it
has none. -/
theorem exists_standsAt_of_mem_tokenize (text : String) :
    ∀ token ∈ tokenize text, ∃ front rest, text.toList = front ++ rest ∧
      token.StandsAt front rest ∧
      (token.leading = [] ∨ token.leading = (Gap.scan 0 text.toList).items ∧
        front = (Gap.scan 0 text.toList).piece) := by
  have hstands := Token.exists_standsAt_of_mem_scan (Gap.scan 0 text.toList).items
    (Gap.scan 0 text.toList).piece (Gap.next?_rest 0 text.toList)
  rwa [Gap.scan_append] at hstands

/-- The trivia on both sides of a token. -/
def Token.trivia (token : Token) : List Trivia :=
  token.leading ++ token.trailing

/-- All trivia of a text stands in it. -/
theorem exists_standsAt_of_mem_trivia (text : String) :
    ∀ item ∈ (tokenize text).flatMap Token.trivia, ∃ front cut,
      text.toList = front ++ (cut.piece ++ cut.rest) ∧ item.StandsAt front cut := by
  intro item hitem
  obtain ⟨token, htoken, hitem⟩ := List.mem_flatMap.mp hitem
  obtain ⟨front, cs, htext, hstands, hleading⟩ := exists_standsAt_of_mem_tokenize text token htoken
  rcases List.mem_append.mp hitem with hitem | hitem
  · rcases hleading with hnil | ⟨hleading, -⟩
    · rw [hnil] at hitem
      cases hitem
    · rw [hleading] at hitem
      exact Gap.exists_standsAt_of_mem_scan (.nil_left text.toList) item hitem
  · obtain ⟨rest, rfl, hvalue, htrailing⟩ := hstands.exists_rest
    rw [htrailing] at hitem
    have hgap := Gap.exists_standsAt_of_mem_scan (hstands.apart hvalue) item hitem
    rwa [List.append_assoc, ← htext] at hgap

end LosslessSyntax
