import LosslessSyntax.Proofs.Token.Locality
import LosslessSyntax.Diagnostic.Lexical
import LosslessSyntax.Proofs.Text.Layout

/-!
# A text behind another

Let a text end in a break and another one come behind it. The tokens of the first text are the same
whatever the second one is (`Token.scan_append`), but for the trivia of the last token: the gap at
the end of the first text grows by the break and by the gap with which the second text begins. The
break may be joined with a carriage return in front of it, and it ends a comment of one line. A
block comment has to be closed in the first text, as it is in a text without errors.
-/

namespace LosslessSyntax

/-! ### Trivia -/

theorem throughClosing_cons {c : Char} {cs : List Char}
    (h : c = '*' → cs.head? ≠ some '/') :
    throughClosing (c :: cs) = (c :: (throughClosing cs).1, (throughClosing cs).2) := by
  rw [throughClosing]
  rintro cs' hc rfl
  exact h hc rfl

theorem head?_throughClosing (cs : List Char) : (throughClosing cs).1.head? = cs.head? := by
  fun_cases throughClosing cs <;> rfl

/-- A comment that is closed ends where it does whatever comes behind. -/
private theorem throughClosing_append_of_suffix {cs : List Char}
    (h : ['*', '/'] <:+ (throughClosing cs).1) (ds : List Char) :
    throughClosing (cs ++ ds) = ((throughClosing cs).1, (throughClosing cs).2 ++ ds) := by
  fun_induction throughClosing cs with
  | case1 => exact absurd (List.suffix_nil.mp h) (List.cons_ne_nil _ _)
  | case2 => rfl
  | case3 c cs hopen ih =>
    have hsuffix : ['*', '/'] <:+ (throughClosing cs).1 := by
      rcases List.suffix_cons_iff.mp h with heq | hsuffix
      · obtain ⟨hc, hbody⟩ := List.cons.inj heq
        have happend := throughClosing_append cs
        rw [← hbody] at happend
        exact (hopen _ hc.symm happend.symm).elim
      · exact hsuffix
    have hhead : c = '*' → (cs ++ ds).head? ≠ some '/' := by
      cases cs with
      | nil => exact absurd (List.suffix_nil.mp hsuffix) (List.cons_ne_nil _ _)
      | cons x xs => exact fun hc hx => hopen xs hc (congrArg (· :: xs) (Option.some.inj hx))
    rw [List.cons_append, throughClosing_cons hhead, ih hsuffix]

/-- A block comment is closed if what is behind its opening ends with a star and a slash. -/
theorem isClosedComment_iff {comment : String} {body : List Char}
    (h : comment.toList = '/' :: '*' :: body) :
    isClosedComment comment = true ↔ ['*', '/'] <:+ body := by
  rw [isClosedComment, Bool.and_eq_true, decide_eq_true_iff, List.isSuffixOf_iff_suffix,
    ← byteLength_toList, h]
  constructor
  · rintro ⟨hsize, hsuffix⟩
    rcases List.suffix_cons_iff.mp hsuffix with heq | hsuffix
    · cases heq
    rcases List.suffix_cons_iff.mp hsuffix with heq | hsuffix
    -- A slash behind the opening would share its star.
    · obtain rfl := (List.cons.inj heq).2
      exact absurd hsize (by decide)
    · exact hsuffix
  · rintro ⟨inside, rfl⟩
    refine ⟨?_, '/' :: '*' :: inside, rfl⟩
    have hclosing : byteLength ['*', '/'] = 2 := rfl
    have hopening : '/'.utf8Size = 1 ∧ '*'.utf8Size = 1 := ⟨rfl, rfl⟩
    rw [byteLength_cons, byteLength_cons, byteLength_append, hclosing, hopening.1, hopening.2]
    omega

/-- The item at the front of a text is the same whatever comes behind a break that follows the text,
unless it is a carriage return to which the break belongs. -/
theorem Trivia.next?_append {cs : List Char} (hne : cs ≠ []) (hreturn : cs ≠ ['\r'])
    (hclosed : ∀ cut ∈ next? cs, ∃ position, (ofCut position cut).error? = none)
    (ds : List Char) :
    next? (cs ++ '\n' :: ds) = (next? cs).map fun cut => cut.extend ('\n' :: ds) := by
  obtain ⟨c, cs, rfl⟩ := List.exists_cons_of_ne_nil hne
  rw [List.cons_append, next?_cons, next?_cons] at *
  split
  · next hblank =>
    rw [Option.map_some, Cut.run_append _ _ (by decide)]
  split
  · next hbreak =>
    cases cs with
    | nil =>
      have hc : c ≠ '\r' := fun hc => hreturn (by rw [hc])
      simp [hc, Cut.extend]
    | cons x xs =>
      rw [List.cons_append, List.head?_cons, List.head?_cons, List.tail_cons, List.tail_cons]
      split <;> rfl
  · next hblank hbreak =>
    cases cs with
    | nil => simp
    | cons x xs =>
      rw [List.cons_append, List.head?_cons, List.head?_cons, List.tail_cons, List.tail_cons]
      split
      · rw [Option.map_some, Cut.run_append _ _ (by decide)]
      split
      · next hline hblock =>
        rw [if_neg hblank, if_neg hbreak, List.head?_cons, if_neg hline, if_pos hblock] at hclosed
        obtain ⟨position, herror⟩ := hclosed _ rfl
        have hclosed : isClosedComment (String.ofList ('/' :: '*' :: (throughClosing xs).1)) := by
          simpa [Trivia.error?, Trivia.ofCut] using herror
        rw [isClosedComment_iff String.toList_ofList] at hclosed
        rw [throughClosing_append_of_suffix hclosed]
        rfl
      · rfl

/-! ### Gaps -/

namespace Gap

private theorem scan_append_of_next?_eq_some {position : Nat} {cs : List Char}
    {cut : Cut TriviaKind} (hcut : Trivia.next? cs = some cut) (hreturn : cs ≠ ['\r'])
    (hclosed : (Trivia.ofCut position cut).error? = none) (ds : List Char) :
    scan position (cs ++ '\n' :: ds) =
      ⟨Trivia.ofCut position cut ::
          (scan (position + byteLength cut.piece) (cut.rest ++ '\n' :: ds)).items,
        cut.piece ++ (scan (position + byteLength cut.piece) (cut.rest ++ '\n' :: ds)).piece,
        (scan (position + byteLength cut.piece) (cut.rest ++ '\n' :: ds)).rest⟩ := by
  have hne : cs ≠ [] := by
    rintro rfl
    cases hcut
  have happend := Trivia.next?_append hne hreturn (fun other hother => ⟨position, by
    rw [← Option.some.inj (hcut.symm.trans hother)]
    exact hclosed⟩) ds
  rw [hcut, Option.map_some] at happend
  rw [scan_of_next?_eq_some happend]
  rfl

/-- A gap that ends before a text does is the same with more text behind. -/
theorem scan_append_of_rest_ne_nil {position : Nat} {cs : List Char}
    (hclosed : ∀ item ∈ (scan position cs).items, item.error? = none)
    (hrest : (scan position cs).rest ≠ []) (ds : List Char) :
    scan position (cs ++ '\n' :: ds) =
      ⟨(scan position cs).items, (scan position cs).piece,
        (scan position cs).rest ++ '\n' :: ds⟩ := by
  fun_induction scan position cs with
  | case1 position cs hnone =>
    have hreturn : cs ≠ ['\r'] := by
      rintro rfl
      cases hnone
    have happend := Trivia.next?_append hrest hreturn (by simp [hnone]) ds
    rw [hnone] at happend
    exact scan_of_next?_eq_none happend position
  | case2 position cs cut hcut gap ih =>
    obtain ⟨herror, hclosed⟩ := List.forall_mem_cons.mp hclosed
    have hreturn : cs ≠ ['\r'] := by
      rintro rfl
      cases hcut
      exact hrest (congrArg Gap.rest (scan_of_next?_eq_none rfl _))
    rw [scan_append_of_next?_eq_some hcut hreturn herror, ih hclosed hrest]

/-- A gap that goes on to the end of a text goes on through a break into the next text. -/
theorem scan_append_of_rest_eq_nil {position : Nat} {cs : List Char}
    (hclosed : ∀ item ∈ (scan position cs).items, item.error? = none)
    (hrest : (scan position cs).rest = []) (ds : List Char) :
    (scan position (cs ++ '\n' :: ds)).piece = cs ++ '\n' :: (scan 0 ds).piece ∧
      (scan position (cs ++ '\n' :: ds)).rest = (scan 0 ds).rest := by
  fun_induction scan position cs with
  | case1 position cs hnone =>
    have hbreak : Trivia.next? ('\n' :: ds) = some ⟨.endOfLine, ['\n'], ds⟩ := rfl
    have hscan := scan_position (position + byteLength ['\n']) 0 ds
    obtain rfl : cs = [] := hrest
    rw [List.nil_append, scan_of_next?_eq_some hbreak, hscan.1, hscan.2]
    exact ⟨rfl, rfl⟩
  | case2 position cs cut hcut gap ih =>
    obtain ⟨herror, hclosed⟩ := List.forall_mem_cons.mp hclosed
    by_cases hreturn : cs = ['\r']
    -- The carriage return and the break become one.
    · have hbreak : Trivia.next? ('\r' :: '\n' :: ds) = some ⟨.endOfLine, ['\r', '\n'], ds⟩ := rfl
      have hscan := scan_position (position + byteLength ['\r', '\n']) 0 ds
      rw [hreturn, List.cons_append, List.nil_append, scan_of_next?_eq_some hbreak, hscan.1,
        hscan.2]
      exact ⟨rfl, rfl⟩
    · obtain ⟨hpiece, hscan⟩ := ih hclosed hrest
      rw [scan_append_of_next?_eq_some hcut hreturn herror, hpiece, hscan, ← List.append_assoc,
        (Trivia.of_next? hcut).append_eq]
      exact ⟨rfl, rfl⟩

end Gap

/-! ### Tokens -/

/-- A word that ends a text behind a break is a word of the text behind the break. -/
private theorem any_isWord_getLast?_append_newline (cs ds : List Char) :
    (cs ++ '\n' :: ds).getLast?.any isWord = ds.getLast?.any isWord := by
  have hbreak : isWord '\n' = false := by decide +kernel
  rw [List.getLast?_append, List.getLast?_cons, Option.some_or, Option.any_some]
  cases ds.getLast? with
  | none => exact hbreak
  | some d => rfl

namespace Token

/-- The tokens of a text behind which a break and another text come: those of the first text, the
last one with more trivia, and those of the second text behind its gap. -/
theorem scan_append {leading : List Trivia} {before : Option Char} {position : Nat}
    {cs : List Char} (hne : cs ≠ [])
    (hclosed : ∀ token ∈ scan leading before position cs, ∀ item ∈ token.trailing,
      item.error? = none) (ds : List Char) :
    ∃ front last trailing before',
      scan leading before position cs = front ++ [last, endAt (position + byteLength cs)] ∧
      scan leading before position (cs ++ '\n' :: ds) =
        front ++ { last with trailing := trailing } ::
          scan [] before' (position + byteLength cs + (1 + byteLength (Gap.scan 0 ds).piece))
            (Gap.scan 0 ds).rest ∧
      before'.any isWord = (Gap.scan 0 ds).piece.getLast?.any isWord := by
  fun_induction scan leading before position cs with
  | case1 => exact absurd rfl hne
  | case2 leading before position c cs lexeme stop gap ih =>
    obtain ⟨hgap, hclosed⟩ := List.forall_mem_cons.mp hclosed
    have hnext : Lexeme.next before c (cs ++ '\n' :: ds) = lexeme.extend ('\n' :: ds) :=
      Lexeme.next_append (by decide) (fun _ => .inl (by decide)) ds
    have hlexeme : lexeme.piece ++ lexeme.rest = c :: cs := (Lexeme.of_next before c cs).append_eq
    have happend : gap.piece ++ gap.rest = lexeme.rest := Gap.scan_append stop lexeme.rest
    have hstop : stop + byteLength gap.piece + byteLength gap.rest =
        position + byteLength (c :: cs) := by
      rw [← hlexeme, ← happend, byteLength_append, byteLength_append]
      omega
    rw [List.cons_append]
    by_cases hrest : gap.rest = []
    · obtain ⟨hpiece, hscan⟩ := Gap.scan_append_of_rest_eq_nil hgap hrest ds
      refine ⟨[], ofCut position lexeme leading gap.items,
        (Gap.scan stop (lexeme.rest ++ '\n' :: ds)).items,
        (lexeme.piece ++ (lexeme.rest ++ '\n' :: (Gap.scan 0 ds).piece)).getLast?, ?_, ?_, ?_⟩
      · rw [hrest, byteLength_nil, Nat.add_zero] at hstop
        rw [hrest, hstop, scan]
        rfl
      · rw [scan_cons hnext hpiece hscan leading]
        have hposition : position + byteLength lexeme.piece +
            byteLength (lexeme.rest ++ '\n' :: (Gap.scan 0 ds).piece) =
            position + byteLength (c :: cs) + (1 + byteLength (Gap.scan 0 ds).piece) := by
          rw [← hlexeme, byteLength_append, byteLength_append, byteLength_cons]
          have : '\n'.utf8Size = 1 := rfl
          omega
        exact congrArg (_ :: scan [] _ · _) hposition
      · rw [← List.append_assoc]
        exact any_isWord_getLast?_append_newline _ _
    · obtain ⟨front, last, trailing, before', hfront, hscan, hbefore⟩ := ih hrest hclosed
      have hgap' := Gap.scan_append_of_rest_ne_nil hgap hrest ds
      rw [hstop] at hfront hscan
      refine ⟨ofCut position lexeme leading gap.items :: front, last, trailing, before', ?_, ?_,
        hbefore⟩
      · rw [hfront]
        rfl
      · have hitems : (Gap.scan stop (lexeme.rest ++ '\n' :: ds)).items = gap.items := by
          rw [hgap']
        rw [scan_cons hnext (congrArg Gap.piece hgap') (congrArg Gap.rest hgap') leading,
          List.cons_append, ← hscan, ← hitems]
        rfl

theorem exists_scan_eq_cons (leading : List Trivia) (before : Option Char) (position : Nat)
    (cs : List Char) :
    ∃ token tokens, scan leading before position cs = token :: tokens ∧
      token.leading = leading := by
  cases cs with
  | nil =>
    rw [scan]
    exact ⟨_, _, rfl, rfl⟩
  | cons c cs =>
    rw [scan]
    exact ⟨_, _, rfl, rfl⟩

end Token

/-- The same tokens, but perhaps with other trivia behind the last. -/
inductive SameButLast : List Token → List Token → Prop
  | nil : SameButLast [] []
  | last (front : List Token) (last : Token) (trailing : List Trivia) :
      SameButLast (front ++ [last]) (front ++ [{ last with trailing := trailing }])

/-- The tokens of a text, and those of the text with a break and another text behind. The trivia in
front of the other text belongs to the last token of the first one, if there is one. -/
theorem tokenize_append {text : String} (hclosed : ∀ token ∈ tokenize text,
      ∀ item ∈ token.leading ++ token.trailing, item.error? = none) (other : String) :
    ∃ body body' last leading before,
      tokenize text = body ++ [last] ∧
      tokenize (text ++ "\n" ++ other) =
        body' ++ Token.scan leading before
          (text.utf8ByteSize + (1 + byteLength (Gap.scan 0 other.toList).piece))
          (Gap.scan 0 other.toList).rest ∧
      SameButLast body body' ∧ last.kind = .endToken ∧
      before.any isWord = (Gap.scan 0 other.toList).piece.getLast?.any isWord := by
  have htext : (text ++ "\n" ++ other).toList = text.toList ++ '\n' :: other.toList := by
    simp [String.toList_append]
  have hitems : ∀ item ∈ (Gap.scan 0 text.toList).items, item.error? = none := by
    obtain ⟨token, tokens, hscan, hleading⟩ := Token.exists_scan_eq_cons
      (Gap.scan 0 text.toList).items (Gap.scan 0 text.toList).piece.getLast?
      (byteLength (Gap.scan 0 text.toList).piece) (Gap.scan 0 text.toList).rest
    intro item hitem
    rw [← hleading] at hitem
    have hmem : token ∈ tokenize text := by
      rw [tokenize, hscan]
      exact List.mem_cons_self
    exact hclosed token hmem item (List.mem_append_left _ hitem)
  by_cases hrest : (Gap.scan 0 text.toList).rest = []
  · obtain ⟨hpiece, hscan⟩ := Gap.scan_append_of_rest_eq_nil hitems hrest other.toList
    have hposition : byteLength (text.toList ++ '\n' :: (Gap.scan 0 other.toList).piece) =
        text.utf8ByteSize + (1 + byteLength (Gap.scan 0 other.toList).piece) := by
      rw [byteLength_append, byteLength_toList]
      rfl
    have hfirst : tokenize text = [{ Token.endAt (byteLength (Gap.scan 0 text.toList).piece) with
        leading := (Gap.scan 0 text.toList).items }] := by
      rw [tokenize, hrest, Token.scan]
    have hwhole := tokenize.eq_1 (text ++ "\n" ++ other)
    rw [htext, hscan, hpiece, hposition] at hwhole
    exact ⟨[], [], _, _, _, hfirst, hwhole, .nil, rfl,
      any_isWord_getLast?_append_newline text.toList _⟩
  · have htrailing : ∀ token ∈ tokenize text, ∀ item ∈ token.trailing, item.error? = none :=
      fun token htoken item hitem => hclosed token htoken item (List.mem_append_right _ hitem)
    have hposition : byteLength (Gap.scan 0 text.toList).piece +
        byteLength (Gap.scan 0 text.toList).rest = text.utf8ByteSize := by
      rw [← byteLength_append, Gap.scan_append, byteLength_toList]
    obtain ⟨front, last, trailing, before, hfront, hscan, hbefore⟩ :=
      Token.scan_append hrest htrailing other.toList
    rw [hposition] at hfront hscan
    have hfirst : tokenize text = (front ++ [last]) ++ [.endAt text.utf8ByteSize] := by
      rw [tokenize, hfront, List.append_assoc]
      rfl
    refine ⟨front ++ [last], _, _, [], before, hfirst, ?_, .last front last trailing, rfl, hbefore⟩
    rw [tokenize, htext, Gap.scan_append_of_rest_ne_nil hitems hrest]
    simp only [hscan, List.append_assoc, List.singleton_append]

end LosslessSyntax
