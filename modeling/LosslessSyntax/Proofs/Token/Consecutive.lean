import Mathlib.Data.List.Chain
import LosslessSyntax.Proofs.Token.Tiling

/-!
# Tokens one behind the other

Some tokens are consecutive in a stretch of a text where each has its trivia around it and nothing
is between the trivia behind a token and that before the next (`Consecutive`). The tokens of a text
are (`consecutive_tokenize`), and so are those of a front part of the stream, in a front part of the
text.

A source has at the spans of consecutive tokens what these spell (`Consecutive.slice`), the spans
follow one another (`Consecutive.pairwise`), and the full span of the last token ends where the
stretch does (`Consecutive.fullSpan_last`). Consecutive tokens without trivia between them are
written side by side (`Consecutive.exists_of_isChain`).
-/

namespace LosslessSyntax

/-- Tokens that make up a stretch of a text behind a front part, each with its trivia. -/
inductive Consecutive : List Char → List Token → List Char → Prop
  | nil (front : List Char) : Consecutive front [] []
  | cons {front before after cs : List Char} {token : Token} {tokens : List Token}
      (hleading : Layout (byteLength front) before (token.leading.map Trivia.piece))
      (hspan : token.span = ⟨byteLength (front ++ before), byteLength token.value.toList⟩)
      (htrailing : Layout token.span.stop after (token.trailing.map Trivia.piece))
      (htokens : Consecutive (front ++ (before ++ (token.value.toList ++ after))) tokens cs) :
      Consecutive front (token :: tokens) (before ++ (token.value.toList ++ (after ++ cs)))

namespace Consecutive

variable {front cs : List Char} {tokens others : List Token}

/-! ### Streams side by side -/

theorem append {ds : List Char} (h : Consecutive front tokens cs)
    (hothers : Consecutive (front ++ cs) others ds) :
    Consecutive front (tokens ++ others) (cs ++ ds) := by
  induction h with
  | nil front => rwa [List.append_nil] at hothers
  | cons hleading hspan htrailing _ ih =>
    simp only [List.append_assoc] at hothers ih ⊢
    exact .cons hleading hspan htrailing (ih hothers)

theorem exists_of_append (h : Consecutive front (tokens ++ others) cs) :
    ∃ ds es, cs = ds ++ es ∧ Consecutive front tokens ds ∧ Consecutive (front ++ ds) others es := by
  induction tokens generalizing front cs with
  | nil => exact ⟨[], cs, rfl, .nil front, by rwa [List.append_nil]⟩
  | cons token tokens ih =>
    cases h with
    | cons hleading hspan htrailing htokens =>
      obtain ⟨ds, es, rfl, hds, hes⟩ := ih htokens
      refine ⟨_, es, ?_, .cons hleading hspan htrailing hds, ?_⟩
      · simp only [List.append_assoc]
      · simpa only [List.append_assoc] using hes

/-- The end of the input, any number of times, behind a text. -/
theorem replicate_endAt (front : List Char) (n : Nat) :
    Consecutive front (List.replicate n (.endAt (byteLength front))) [] := by
  induction n with
  | zero => exact .nil front
  | succ n ih =>
    have hspan : (Token.endAt (byteLength front)).span = ⟨byteLength (front ++ []), 0⟩ := by
      rw [List.append_nil]
      rfl
    have htokens : Consecutive (front ++ ([] ++ ("".toList ++ [])))
        (List.replicate n (.endAt (byteLength front))) [] := by
      rwa [String.toList_empty, List.append_nil, List.append_nil, List.append_nil]
    exact .cons (.nil _) hspan (.nil _) htokens

/-! ### Spans -/

theorem slice (h : Consecutive front tokens cs) (back : List Char) :
    ∀ token ∈ tokens,
      (Source.ofString (String.ofList (front ++ (cs ++ back)))).slice token.span =
        .ok token.value := by
  induction h with
  | nil => nofun
  | @cons front before after cs token tokens _ hspan _ _ ih =>
    simp only [List.append_assoc] at ih ⊢
    refine List.forall_mem_cons.mpr ⟨?_, ih⟩
    have hslice := Source.slice_ofList_append (front ++ before) token.value.toList
      (after ++ (cs ++ back))
    rwa [List.append_assoc, ← hspan, String.ofList_toList] at hslice

theorem le_start (h : Consecutive front tokens cs) :
    ∀ token ∈ tokens, byteLength front ≤ token.span.start := by
  induction h with
  | nil => nofun
  | cons _ hspan _ _ ih =>
    refine List.forall_mem_cons.mpr ⟨?_, fun token htoken => Nat.le_trans ?_ (ih token htoken)⟩
    · rw [hspan, byteLength_append]
      exact Nat.le_add_right _ _
    · rw [byteLength_append]
      exact Nat.le_add_right _ _

/-- Each token starts where those before it have ended. -/
theorem pairwise (h : Consecutive front tokens cs) :
    tokens.Pairwise fun a b => a.span.stop ≤ b.span.start := by
  induction h with
  | nil => exact .nil
  | cons _ hspan _ htokens ih =>
    refine .cons (fun token htoken => Nat.le_trans ?_ (htokens.le_start token htoken)) ih
    simp only [hspan, Span.stop, byteLength_append]
    omega

/-- The full span of the last token goes up to the end of the stretch. -/
theorem fullSpan_last {last : Token} (h : Consecutive front (tokens ++ [last]) cs) :
    ∃ span, last.fullSpan = .ok span ∧ span.stop = byteLength (front ++ cs) := by
  obtain ⟨ds, es, rfl, -, hlast⟩ := h.exists_of_append
  cases hlast with
  | @cons _ before after _ _ _ hleading hspan htrailing htokens =>
    cases htokens
    have hstart := hleading.head?_start
    have hstop := htrailing.getLast?_stop
    rw [← byteLength_append, List.head?_map, Option.map_map] at hstart
    rw [List.getLast?_map, Option.map_map] at hstop
    have hlength : last.span.stop + byteLength after =
        byteLength (front ++ (ds ++ (before ++ (last.value.toList ++ (after ++ []))))) := by
      simp only [hspan, Span.stop, byteLength_append, byteLength_nil]
      omega
    have hle : byteLength (front ++ ds) ≤ last.span.stop + byteLength after := by
      simp only [hlength, byteLength_append]
      omega
    have hfull : last.fullSpan =
        Span.ofBounds (byteLength (front ++ ds)) (last.span.stop + byteLength after) := by
      have hbefore : last.span.start = byteLength (front ++ ds ++ before) := by rw [hspan]
      rw [Token.fullSpan_exact, ← hstop, ← hstart, ← hbefore]
      rfl
    refine ⟨_, hfull.trans (Span.ofBounds_of_le hle), ?_⟩
    rw [Span.stop, Nat.add_sub_cancel' hle, hlength]

/-- Tokens without trivia between them are written side by side, between the trivia before the first
and that behind the last. -/
theorem exists_of_isChain {first last : Token}
    (h : Consecutive front (first :: others) cs)
    (htouch : (first :: others).IsChain fun a b => a.trailing = [] ∧ b.leading = [])
    (hlast : (first :: others).getLast? = some last) :
    ∃ before value after, cs = before ++ (value ++ after) ∧
      value = (String.join ((first :: others).map Token.value)).toList ∧
      Layout (byteLength front) before (first.leading.map Trivia.piece) ∧
      first.span.start = byteLength (front ++ before) ∧
      Layout (first.span.start + byteLength value) after (last.trailing.map Trivia.piece) := by
  induction others generalizing first front cs with
  | nil =>
    obtain rfl := Option.some.inj hlast
    cases h with
    | @cons _ before after _ _ _ hleading hspan htrailing htokens =>
      cases htokens
      refine ⟨before, first.value.toList, after, by rw [List.append_nil], by simp, hleading,
        by rw [hspan], ?_⟩
      rw [Span.stop, hspan] at htrailing
      rwa [hspan]
  | cons second others ih =>
    obtain ⟨⟨htrailing, hleading⟩, hchain⟩ := List.isChain_cons_cons.mp htouch
    cases h with
    | @cons _ before after _ _ _ hbefore hspan hafter htokens =>
      obtain ⟨before', value, after', rfl, hvalue, hbefore', hstart, hafter'⟩ :=
        ih htokens hchain (by rwa [List.getLast?_cons_cons] at hlast)
      -- No trivia is between the first token and the second.
      rw [htrailing] at hafter
      rw [hleading] at hbefore'
      obtain rfl : after = [] := by cases hafter; rfl
      obtain rfl : before' = [] := by cases hbefore'; rfl
      refine ⟨before, first.value.toList ++ value, after', ?_, ?_, hbefore, by rw [hspan], ?_⟩
      · simp only [List.nil_append, List.append_assoc]
      · rw [hvalue, ← String.toList_append, ← String.join_cons, ← List.map_cons]
      · have hlength : first.span.start + byteLength (first.value.toList ++ value) =
            second.span.start + byteLength value := by
          simp only [hspan, hstart, byteLength_append, byteLength_nil]
          omega
        rwa [hlength]

end Consecutive

/-! ### The tokens of a text -/

/-- The tokens of a text are consecutive, behind the trivia that the first one brings along. -/
theorem Token.consecutive_scan {leading : List Trivia} {front gap : List Char}
    (hleading : Layout (byteLength front) gap (leading.map Trivia.piece)) (before : Option Char)
    (cs : List Char) :
    Consecutive front (scan leading before (byteLength (front ++ gap)) cs) (gap ++ cs) := by
  generalize hposition : byteLength (front ++ gap) = position
  fun_induction scan leading before position cs generalizing front gap with
  | case1 leading before position =>
    have hspan : (endAt position).span = ⟨byteLength (front ++ gap), byteLength "".toList⟩ := by
      rw [hposition]
      rfl
    have htoken : Consecutive front [{ endAt position with leading := leading }]
        (gap ++ ("".toList ++ ([] ++ []))) := .cons hleading hspan (.nil _) (.nil _)
    exact htoken
  | @case2 leading before position c cs lexeme stop gap' ih =>
    have htext : lexeme.piece ++ (gap'.piece ++ gap'.rest) = c :: cs := by
      rw [Gap.scan_append, (Lexeme.of_next before c cs).append_eq]
    have hvalue : (String.ofList lexeme.piece).toList = lexeme.piece := String.toList_ofList
    have hstop : byteLength (front ++ (gap ++ (lexeme.piece ++ gap'.piece)) ++ []) =
        stop + byteLength gap'.piece := by
      simp only [stop, ← hposition, byteLength_append, byteLength_nil]
      omega
    have hspan : (ofCut position lexeme leading gap'.items).span =
        ⟨byteLength (front ++ gap), byteLength lexeme.piece⟩ := by
      rw [hposition]
      rfl
    have hbehind := ih (.nil (byteLength (front ++ (gap ++ (lexeme.piece ++ gap'.piece))))) hstop
    rw [← htext]
    rw [← hvalue] at hspan hbehind
    have htoken : Consecutive front (ofCut position lexeme leading gap'.items :: _)
        (gap ++ ((String.ofList lexeme.piece).toList ++ (gap'.piece ++ gap'.rest))) :=
      .cons hleading hspan (Gap.layout_scan stop lexeme.rest) hbehind
    rwa [hvalue] at htoken

/-- The tokens of a text are consecutive. -/
theorem consecutive_tokenize (text : String) : Consecutive [] (tokenize text) text.toList := by
  have hgap : Layout (byteLength []) (Gap.scan 0 text.toList).piece
      ((Gap.scan 0 text.toList).items.map Trivia.piece) := Gap.layout_scan 0 text.toList
  have hscan := Token.consecutive_scan hgap (Gap.scan 0 text.toList).piece.getLast?
    (Gap.scan 0 text.toList).rest
  rwa [List.nil_append, Gap.scan_append] at hscan

end LosslessSyntax
