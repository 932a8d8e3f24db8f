import LosslessSyntax.Proofs.Text.LineBreaks
import LosslessSyntax.Proofs.Token.Seam

/-!
# Tokens and line breaks

The lexer takes every line break for the same, however it is written. A lexeme has no breaks in it
and ends before one (`Lexeme.unbroken_next`), and an item of trivia has a break as a whole or not
at all (`Trivia.next?_unifyBreaks`).

So a text and the same text with line feeds only have the same tokens: one by one they are of the
same kind and the same text, have trivia of the same kinds around them, and begin at the same place
(`map_outline_tokenize`), where a place is given by its line and column.
-/

namespace LosslessSyntax

/-! ### Scanning for the end of a piece -/

section

variable {test : Char → Bool} (htest : ∀ c, isBreak c = true → test c = false)

include htest

theorem takeWhile_unifyBreaks (cs : List Char) :
    (unifyBreaks cs).takeWhile test = cs.takeWhile test := by
  fun_induction unifyBreaks cs with
  | case1 => rfl
  | case2 | case3 => simp [htest '\n' rfl, htest '\r' rfl]
  | case4 c cs _ _ ih => rw [List.takeWhile_cons, List.takeWhile_cons, ih]

theorem dropWhile_unifyBreaks (cs : List Char) :
    (unifyBreaks cs).dropWhile test = unifyBreaks (cs.dropWhile test) := by
  fun_induction unifyBreaks cs with
  | case1 => rfl
  | case2 => simp [htest '\n' rfl, htest '\r' rfl, unifyBreaks]
  | case3 cs hne =>
    rw [List.dropWhile_cons_of_neg (by simp [htest '\n' rfl]),
      List.dropWhile_cons_of_neg (by simp [htest '\r' rfl]), unifyBreaks.eq_3 cs hne]
  | case4 c cs _ hc ih =>
    rw [List.dropWhile_cons, List.dropWhile_cons, ih, ← unifyBreaks_cons hc]
    split <;> rfl

theorem isBreak_of_mem_takeWhile (cs : List Char) :
    ∀ c ∈ cs.takeWhile test, isBreak c = false := by
  intro c hc
  rw [Bool.eq_false_iff]
  exact fun hbreak => absurd (List.mem_takeWhile_imp hc) (by simp [htest c hbreak])

end

/-- A piece within a line that is cut off a text, and off the unified text in the same way. -/
structure Cut.Unbroken {κ : Type} (cut' cut : Cut κ) : Prop where
  eq : cut' = ⟨cut.kind, cut.piece, unifyBreaks cut.rest⟩
  isBreak_eq_false : ∀ c ∈ cut.piece, isBreak c = false

theorem Cut.unbroken_run {κ : Type} (kind : κ) {opening : List Char}
    (hopening : ∀ c ∈ opening, isBreak c = false) {test : Char → Bool}
    (htest : ∀ c, isBreak c = true → test c = false) (cs : List Char) :
    Unbroken (run kind opening test (unifyBreaks cs)) (run kind opening test cs) where
  eq := by rw [run, run, takeWhile_unifyBreaks htest, dropWhile_unifyBreaks htest]
  isBreak_eq_false :=
    List.forall_mem_append.mpr ⟨hopening, isBreak_of_mem_takeWhile htest cs⟩

/-! ### Lexemes -/

private theorem isWord_of_isBreak (c : Char) (h : isBreak c = true) : isWord c = false :=
  (not_of_isSpace (by simp [isSpace, h])).1

private theorem isDigit_of_isBreak (c : Char) (h : isBreak c = true) : c.isDigit = false :=
  (not_of_isSpace (by simp [isSpace, h])).2.1

theorem any_isWord_getLast?_unifyBreaks (cs : List Char) :
    (unifyBreaks cs).getLast?.any isWord = cs.getLast?.any isWord := by
  rw [getLast?_unifyBreaks]
  cases cs.getLast? with
  | none => rfl
  | some c =>
    rw [Option.map_some, Option.any_some, Option.any_some]
    split
    · next hbreak => rw [isWord_of_isBreak c hbreak, isWord_of_isBreak '\n' rfl]
    · rfl

theorem startsWithDigit_unifyBreaks (cs : List Char) :
    startsWithDigit (unifyBreaks cs) = startsWithDigit cs := by
  rw [startsWithDigit, startsWithDigit, head?_unifyBreaks]
  cases cs.head? with
  | none => rfl
  | some c =>
    rw [Option.map_some, Option.any_some, Option.any_some]
    split
    · next hbreak => rw [isDigit_of_isBreak c hbreak, isDigit_of_isBreak '\n' rfl]
    · rfl

/-- A quote is closed on its line or not at all. -/
theorem throughQuote?_unifyBreaks (quote : Char) (cs : List Char) :
    throughQuote? quote (unifyBreaks cs) =
      (throughQuote? quote cs).map fun (body, rest) => (body, unifyBreaks rest) := by
  have hcons {c : Char} (hc : ¬isBreak c = true) (cs : List Char) :
      unifyBreaks (c :: cs) = c :: unifyBreaks cs :=
    unifyBreaks_cons (by rintro rfl; exact hc rfl) cs
  fun_induction throughQuote? quote cs with
  | case1 c cs hbreak =>
    obtain ⟨ds, hds⟩ := exists_unifyBreaks_eq_cons hbreak cs
    rw [hcons (by decide), hds, throughQuote?, if_pos (by decide), Option.map_none]
  | case2 c cs hbreak ih =>
    rw [hcons (by decide), hcons hbreak, throughQuote?, if_neg hbreak, ih, Option.map_map,
      Option.map_map]
    rfl
  | case3 c cs hne hstop =>
    by_cases hescape : c = '\\'
    -- A backslash at the end of the text has no character to take along.
    · cases cs with
      | nil => rw [hescape]; rfl
      | cons c' cs => exact absurd rfl (hne c' cs hescape)
    · obtain ⟨ds, hds⟩ := exists_unifyBreaks_eq_cons (by simpa [hescape] using hstop) cs
      rw [hds, throughQuote?_cons quote (by decide), if_pos (by decide), Option.map_none]
  | case4 cs _ hstop =>
    obtain ⟨hescape, hbreak⟩ : quote ≠ '\\' ∧ ¬isBreak quote = true := by simpa using hstop
    rw [hcons hbreak, throughQuote?_cons quote hescape, if_neg hbreak, if_pos rfl]
    rfl
  | case5 c cs _ hstop hne ih =>
    obtain ⟨hescape, hbreak⟩ : c ≠ '\\' ∧ ¬isBreak c = true := by simpa using hstop
    rw [hcons hbreak, throughQuote?_cons quote hescape, if_neg hbreak, if_neg hne, ih,
      Option.map_map, Option.map_map]
    rfl
  | case6 => rfl

/-- There is no break between quotes. -/
theorem isBreak_of_mem_throughQuote? {quote : Char} {cs body rest : List Char}
    (h : throughQuote? quote cs = some (body, rest)) : ∀ c ∈ body, isBreak c = false := by
  fun_induction throughQuote? quote cs generalizing body rest with
  | case1 => cases h
  | case2 c cs hbreak ih =>
    obtain ⟨⟨_, _⟩, hs, he⟩ := Option.map_eq_some_iff.1 h
    cases he
    exact List.forall_mem_cons.mpr
      ⟨rfl, List.forall_mem_cons.mpr ⟨by simpa using hbreak, ih hs⟩⟩
  | case3 => cases h
  | case4 cs _ hstop =>
    cases h
    exact List.forall_mem_singleton.mpr (by simpa using hstop : _ ∧ _).2
  | case5 c cs _ hstop hne ih =>
    obtain ⟨⟨_, _⟩, hs, he⟩ := Option.map_eq_some_iff.1 h
    cases he
    exact List.forall_mem_cons.mpr ⟨(by simpa using hstop : _ ∧ _).2, ih hs⟩
  | case6 => cases h

namespace Lexeme

private theorem unbroken_number {c : Char} (hc : isBreak c = false) (cs : List Char) :
    Cut.Unbroken (number c (unifyBreaks cs)) (number c cs) := by
  have hdigits : ∀ d ∈ c :: cs.takeWhile Char.isDigit, isBreak d = false :=
    List.forall_mem_cons.mpr ⟨hc, isBreak_of_mem_takeWhile isDigit_of_isBreak cs⟩
  have hdrop := dropWhile_unifyBreaks isDigit_of_isBreak cs
  rcases number_cases c cs with ⟨rest, hrest, hdigit, hnumber⟩ | ⟨hfraction, hnumber⟩
  · have hrest' : (unifyBreaks cs).dropWhile Char.isDigit = '.' :: unifyBreaks rest := by
      rw [hdrop, hrest, unifyBreaks_cons (by decide)]
    rw [hnumber, number_of_fraction hrest' (by rwa [startsWithDigit_unifyBreaks]),
      takeWhile_unifyBreaks isDigit_of_isBreak]
    refine Cut.unbroken_run _ ?_ isDigit_of_isBreak rest
    exact List.forall_mem_append.mpr ⟨hdigits, List.forall_mem_singleton.mpr rfl⟩
  · rw [hnumber, number_of_not_fraction, takeWhile_unifyBreaks isDigit_of_isBreak, hdrop]
    · exact ⟨rfl, hdigits⟩
    · intro rest' hrest' hdigit
      rw [hdrop] at hrest'
      have hhead := congrArg List.head? hrest'
      rw [List.head?_cons, head?_unifyBreaks_eq_some (by decide)] at hhead
      obtain ⟨rest, hrest⟩ := List.head?_eq_some_iff.mp hhead
      rw [hrest, unifyBreaks_cons (by decide)] at hrest'
      rw [← (List.cons.inj hrest').2, startsWithDigit_unifyBreaks] at hdigit
      exact hfraction rest hrest hdigit

private theorem unbroken_single {c : Char} (hc : isBreak c = false) (cs : List Char) :
    Cut.Unbroken (single c (unifyBreaks cs)) (single c cs) :=
  ⟨rfl, List.forall_mem_singleton.mpr hc⟩

private theorem unbroken_getD_quoted? (kind : TokenKind) {c : Char} (hc : isBreak c = false)
    (cs : List Char) :
    Cut.Unbroken ((quoted? kind c (unifyBreaks cs)).getD (single c (unifyBreaks cs)))
      ((quoted? kind c cs).getD (single c cs)) := by
  rw [quoted?, quoted?, throughQuote?_unifyBreaks]
  cases hthrough : throughQuote? c cs with
  | none => exact unbroken_single hc cs
  | some found => exact ⟨rfl, List.forall_mem_cons.mpr ⟨hc, isBreak_of_mem_throughQuote? hthrough⟩⟩

/-- A lexeme ends on its line, and is the same in the unified text. -/
theorem unbroken_next (before : Option Char) {c : Char} (hc : isBreak c = false) (cs : List Char) :
    Cut.Unbroken (next before c (unifyBreaks cs)) (next before c cs) := by
  have hopening : ∀ d ∈ [c], isBreak d = false := List.forall_mem_singleton.mpr hc
  rw [next, next, startsWithDigit_unifyBreaks]
  split
  · exact Cut.unbroken_run _ hopening isWord_of_isBreak cs
  split
  · exact unbroken_number hc cs
  split
  · exact Cut.unbroken_run _ hopening isDigit_of_isBreak cs
  split
  · exact unbroken_getD_quoted? _ hc cs
  split
  · exact unbroken_getD_quoted? _ hc cs
  · exact unbroken_single hc cs

end Lexeme

/-! ### Trivia -/

/-- A cut of a unified text. -/
def Cut.unify {κ : Type} (cut : Cut κ) : Cut κ :=
  ⟨cut.kind, unifyBreaks cut.piece, unifyBreaks cut.rest⟩

theorem Cut.Unbroken.eq_unify {κ : Type} {cut' cut : Cut κ} (h : Unbroken cut' cut) :
    cut' = cut.unify := by
  rw [h.eq, unify, unifyBreaks_eq_self h.isBreak_eq_false]

theorem throughClosing_unifyBreaks (cs : List Char) :
    throughClosing (unifyBreaks cs) =
      (unifyBreaks (throughClosing cs).1, unifyBreaks (throughClosing cs).2) := by
  have hpair (ds : List Char) : unifyBreaks ('\r' :: '\n' :: ds) = unifyBreaks ('\n' :: ds) := by
    rw [unifyBreaks, unifyBreaks_cons (by decide)]
  fun_induction throughClosing cs with
  | case1 => rfl
  | case2 cs =>
    rw [unifyBreaks_cons (by decide), unifyBreaks_cons (by decide)]
    rfl
  | case3 c cs hopen ih =>
    have hfeed : '\n' = '*' → (unifyBreaks cs).head? ≠ some '/' := fun h =>
      absurd h (by decide)
    by_cases hc : c = '\r'
    · subst hc
      by_cases hhead : cs.head? = some '\n'
      · obtain ⟨ds, rfl⟩ := List.head?_eq_some_iff.mp hhead
        obtain ⟨body, hbody⟩ := List.head?_eq_some_iff.mp
          ((head?_throughClosing ('\n' :: ds)).trans hhead)
        rw [hpair, ih, hbody, hpair]
      · rw [unifyBreaks_return hhead, throughClosing_cons hfeed, ih,
          unifyBreaks_return (by rwa [head?_throughClosing])]
    · have hslash : c = '*' → (unifyBreaks cs).head? ≠ some '/' := by
        intro hstar hhead
        obtain ⟨ds, hds⟩ := List.head?_eq_some_iff.mp
          ((head?_unifyBreaks_eq_some (by decide)).mp hhead)
        exact hopen ds hstar hds
      rw [unifyBreaks_cons hc, throughClosing_cons hslash, ih, unifyBreaks_cons hc]

/-- A block comment does not end within a break. -/
theorem apart_throughClosing (cs : List Char) :
    Apart (throughClosing cs).1 (throughClosing cs).2 := by
  fun_induction throughClosing cs with
  | case1 => exact .nil_left []
  | case2 cs => exact fun (hlast : ['*', '/'].getLast? = some '\r') => absurd hlast (by decide)
  | case3 c cs hopen ih =>
    refine .cons (fun _ hnil => ?_) ih
    have hcs : cs = [] := by
      rw [← List.head?_eq_none_iff, ← head?_throughClosing, hnil, List.head?_nil]
    rw [hcs]
    exact (Option.some_ne_none '\n').symm

namespace Trivia

theorem next?_of_isBreak {c : Char} {cs : List Char} (hc : isBreak c = true)
    (hcs : c = '\r' → cs.head? ≠ some '\n') : next? (c :: cs) = some ⟨.endOfLine, [c], cs⟩ := by
  have hblank : ¬isBlank c = true := by
    rcases isBreak_iff.mp hc with rfl | rfl <;> decide
  rw [next?_cons, if_neg hblank, if_pos hc, if_neg (not_and.mpr hcs)]

theorem isBlank_of_isBreak (c : Char) (h : isBreak c = true) : isBlank c = false := by
  rcases isBreak_iff.mp h with rfl | rfl <;> rfl

private theorem unbroken_blanks {c : Char} (hc : isBreak c = false) (cs : List Char) :
    Cut.Unbroken (.run TriviaKind.whitespace [c] isBlank (unifyBreaks cs))
      (.run .whitespace [c] isBlank cs) :=
  Cut.unbroken_run _ (List.forall_mem_singleton.mpr hc) isBlank_of_isBreak cs

private theorem unbroken_lineComment (cs : List Char) :
    Cut.Unbroken (.run TriviaKind.singleLineComment ['/', '/'] (fun c => !isBreak c)
        (unifyBreaks cs))
      (.run .singleLineComment ['/', '/'] (fun c => !isBreak c) cs) :=
  Cut.unbroken_run _ (List.forall_mem_cons.mpr ⟨rfl, List.forall_mem_singleton.mpr rfl⟩)
    (fun c hc => by simp [hc]) cs

/-- An item of trivia is the same in the unified text, up to its breaks. -/
theorem next?_unifyBreaks (cs : List Char) : next? (unifyBreaks cs) = (next? cs).map Cut.unify := by
  cases cs with
  | nil => rfl
  | cons c cs =>
    by_cases hbreak : isBreak c = true
    · by_cases hpair : c = '\r' ∧ cs.head? = some '\n'
      · obtain ⟨rfl, hhead⟩ := hpair
        obtain ⟨ds, rfl⟩ := List.head?_eq_some_iff.mp hhead
        rw [unifyBreaks, next?_of_isBreak rfl fun h => absurd h (by decide)]
        rfl
      · have hone : unifyBreaks [c] = ['\n'] := by
          rcases isBreak_iff.mp hbreak with rfl | rfl <;> rfl
        have hapart : Apart [c] cs := .cons (fun hc _ => not_and.mp hpair hc) (.nil_left cs)
        have hcons : unifyBreaks (c :: cs) = '\n' :: unifyBreaks cs := by
          rw [← List.singleton_append, unifyBreaks_append hapart, hone, List.singleton_append]
        rw [next?_of_isBreak hbreak (not_and.mp hpair), Option.map_some, Cut.unify, hone, hcons,
          next?_of_isBreak rfl fun h => absurd h (by decide)]
    · have hc : c ≠ '\r' := by
        rintro rfl
        exact hbreak rfl
      rw [unifyBreaks_cons hc, next?_cons, next?_cons, if_neg hbreak, if_neg hbreak,
        (unbroken_blanks (by simpa using hbreak) cs).eq_unify]
      simp only [head?_unifyBreaks_eq_some (by decide : isBreak '/' = false),
        head?_unifyBreaks_eq_some (by decide : isBreak '*' = false)]
      split
      · rfl
      split
      · next hline =>
        obtain ⟨ds, rfl⟩ := List.head?_eq_some_iff.mp hline.2
        rw [unifyBreaks_cons (by decide), List.tail_cons, (unbroken_lineComment ds).eq_unify]
        rfl
      split
      · next hblock =>
        obtain ⟨ds, rfl⟩ := List.head?_eq_some_iff.mp hblock.2
        rw [unifyBreaks_cons (by decide), List.tail_cons, throughClosing_unifyBreaks,
          Option.map_some, Cut.unify, unifyBreaks_cons (by decide), unifyBreaks_cons (by decide)]
        rfl
      · rfl

/-- An item of trivia does not end within a break. -/
theorem apart_of_next? {cs : List Char} {cut : Cut TriviaKind} (h : next? cs = some cut) :
    Apart cut.piece cut.rest := by
  cases cs with
  | nil => cases h
  | cons c cs =>
    rw [next?_cons] at h
    split at h
    · next hblank =>
      cases h
      refine apart_of_isBreak_eq_false (unbroken_blanks ?_ cs).isBreak_eq_false _
      rw [Bool.eq_false_iff]
      exact fun hbreak => absurd hblank (by simp [isBlank_of_isBreak c hbreak])
    split at h
    · split at h
      · cases h
        nofun
      · next hpair =>
        cases h
        exact .cons (fun hc _ => not_and.mp hpair hc) (.nil_left cs)
    split at h
    · cases h
      exact apart_of_isBreak_eq_false (unbroken_lineComment cs.tail).isBreak_eq_false _
    split at h
    · cases h
      exact .cons (fun hc => absurd hc (by decide))
        (.cons (fun hc => absurd hc (by decide)) (apart_throughClosing cs.tail))
    · cases h

end Trivia

/-! ### Gaps -/

/-- A gap of a text, and the same gap of the unified text. -/
structure Gap.Unified (gap' gap : Gap) : Prop where
  kinds : gap'.items.map Trivia.kind = gap.items.map Trivia.kind
  piece : gap'.piece = unifyBreaks gap.piece
  rest : gap'.rest = unifyBreaks gap.rest
  apart : Apart gap.piece gap.rest

theorem Gap.unified_scan (position' position : Nat) (cs : List Char) :
    Unified (scan position' (unifyBreaks cs)) (scan position cs) := by
  fun_induction scan position cs generalizing position' with
  | case1 position cs h =>
    rw [scan_of_next?_eq_none (by rw [Trivia.next?_unifyBreaks, h, Option.map_none])]
    exact ⟨rfl, rfl, rfl, .nil_left _⟩
  | case2 position cs cut h gap ih =>
    have hnext : Trivia.next? (unifyBreaks cs) = some cut.unify := by
      rw [Trivia.next?_unifyBreaks, h, Option.map_some]
    have hgap := ih (position' + byteLength cut.unify.piece)
    have happend : gap.piece ++ gap.rest = cut.rest := scan_append _ _
    have hapart : Apart cut.piece (gap.piece ++ gap.rest) := happend ▸ Trivia.apart_of_next? h
    rw [scan_of_next?_eq_some hnext]
    refine ⟨?_, ?_, hgap.rest, hapart.append hgap.apart⟩
    · exact congrArg (cut.kind :: ·) hgap.kinds
    · rw [unifyBreaks_append hapart.of_append]
      exact congrArg (unifyBreaks cut.piece ++ ·) hgap.piece

/-! ### Tokens -/

/-- What there is to a token but for how the breaks of its source are written: its kind, its text,
the kinds of the trivia around it, and the place where it begins. -/
structure Token.Outline where
  kind : TokenKind
  value : String
  leading : List TriviaKind
  trailing : List TriviaKind
  place : LinePosition
deriving DecidableEq, Repr

namespace Token

/-- The outline of a token in a source. -/
def outline (source : Source) (token : Token) : Outline where
  kind := token.kind
  value := token.value
  leading := token.leading.map Trivia.kind
  trailing := token.trailing.map Trivia.kind
  place := source.linePosition token.span.start

/-- The tokens of a text and of the unified text have the same outlines, behind front parts of
which one is unified as well. -/
theorem map_outline_scan {source source' : Source} {leading leading' : List Trivia}
    {before before' : Option Char} {front rest : List Char}
    (hleading : leading'.map Trivia.kind = leading.map Trivia.kind)
    (hbefore : before'.any isWord = before.any isWord) (hapart : Apart front rest)
    (hrest : Trivia.next? rest = none)
    (hsource : source = .ofString (String.ofList (front ++ rest)))
    (hsource' : source' = .ofString (String.ofList (unifyBreaks (front ++ rest)))) :
    (scan leading' before' (byteLength (unifyBreaks front)) (unifyBreaks rest)).map
        (outline source') =
      (scan leading before (byteLength front) rest).map (outline source) := by
  generalize hposition : byteLength front = position
  fun_induction scan leading before position rest generalizing leading' before' front with
  | case1 leading before position =>
    have hplace := Source.linePosition_unifyBreaks hapart
    rw [← hsource, ← hsource', hposition] at hplace
    rw [unifyBreaks, scan, List.map_singleton, List.map_singleton]
    simp only [outline, hleading, endAt, hplace]
  | @case2 leading before position c cs lexeme stop gap ih =>
    have hc := Trivia.isBreak_eq_false_of_next?_eq_none hrest
    have hlexeme := Lexeme.unbroken_next before hc cs
    have hnext : Lexeme.next before' c (unifyBreaks cs) =
        ⟨lexeme.kind, lexeme.piece, unifyBreaks lexeme.rest⟩ :=
      (Lexeme.next_congr hbefore c _).trans hlexeme.eq
    have hgap := Gap.unified_scan (byteLength (unifyBreaks front) + byteLength lexeme.piece) stop
      lexeme.rest
    have hplace := Source.linePosition_unifyBreaks hapart
    rw [← hsource, ← hsource', hposition] at hplace
    -- The text may be divided behind the gap as well, and the unified text goes on from there.
    have htext : lexeme.piece ++ gap.piece ++ gap.rest = c :: cs := by
      rw [List.append_assoc, Gap.scan_append, (Lexeme.of_next before c cs).append_eq]
    have hpiece : Apart lexeme.piece (gap.piece ++ gap.rest) :=
      apart_of_isBreak_eq_false hlexeme.isBreak_eq_false _
    have hunify : unifyBreaks (lexeme.piece ++ gap.piece) =
        lexeme.piece ++ unifyBreaks gap.piece := by
      rw [unifyBreaks_append hpiece.of_append, unifyBreaks_eq_self hlexeme.isBreak_eq_false]
    rw [← htext] at hapart hsource hsource'
    rw [← List.append_assoc] at hsource hsource'
    have hstop : byteLength (front ++ (lexeme.piece ++ gap.piece)) =
        stop + byteLength gap.piece := by
      rw [byteLength_append, byteLength_append, hposition]
      omega
    have hbehind := @ih [] (lexeme.piece ++ unifyBreaks gap.piece).getLast?
      (front ++ (lexeme.piece ++ gap.piece)) rfl
      (by rw [← hunify, any_isWord_getLast?_unifyBreaks]) (hapart.append (hpiece.append hgap.apart))
      (Gap.next?_rest _ _) hsource hsource' hstop
    rw [unifyBreaks_append hapart.of_append, hunify, byteLength_append, byteLength_append,
      ← Nat.add_assoc] at hbehind
    rw [unifyBreaks_cons (by rintro rfl; cases hc), scan_cons hnext hgap.piece hgap.rest,
      List.map_cons, List.map_cons, hbehind]
    simp only [outline, ofCut, hleading, hgap.kinds, hplace]
    rfl

end Token

/-- **How breaks are written makes no difference to tokens.** The tokens of a text and of the same
text with line feeds only have the same outlines one by one. -/
theorem map_outline_tokenize (text : String) :
    (tokenize (String.ofList (unifyBreaks text.toList))).map
        (Token.outline (.ofString (String.ofList (unifyBreaks text.toList)))) =
      (tokenize text).map (Token.outline (.ofString text)) := by
  have hgap := Gap.unified_scan 0 0 text.toList
  have happend := Gap.scan_append 0 text.toList
  rw [tokenize, tokenize, String.toList_ofList, hgap.piece, hgap.rest]
  exact Token.map_outline_scan hgap.kinds (any_isWord_getLast?_unifyBreaks _) hgap.apart
    (Gap.next?_rest 0 text.toList) (by rw [happend, String.ofList_toList]) (by rw [happend])

end LosslessSyntax
