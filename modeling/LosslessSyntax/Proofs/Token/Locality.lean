import LosslessSyntax.Token.Stream
import Mathlib.Data.List.TakeWhile

/-!
# Text behind a lexeme

A lexeme ends where a space, a tab or a line break does not belong to it. It is therefore the same
whatever the text is that such a character begins (`Lexeme.next_append`); only a quote that finds no
partner has to be followed by a break, since it would look for one beyond a blank. From the text
before it a lexeme learns no more than whether a word stands there (`Lexeme.next_congr`).

Of a gap it is shown that its place matters for the places of its items only, and that spaces in
front of a text without trivia are all of the gap (`Gap.scan_spaces`).
-/

namespace LosslessSyntax

/-! ### Spaces -/

/-- Whether a character is a space, a tab, or part of a line break. -/
def isSpace (c : Char) : Bool :=
  isBlank c || isBreak c

/-- Spaces are not letters, digits or dots. -/
theorem not_of_isSpace {c : Char} (h : isSpace c = true) :
    isWord c = false ∧ c.isDigit = false ∧ c ≠ '.' := by
  have hc : c = ' ' ∨ c = '\t' ∨ c = '\r' ∨ c = '\n' := by
    simpa [isSpace, isBlank, isBreak, or_assoc] using h
  rcases hc with rfl | rfl | rfl | rfl <;> decide +kernel

private theorem takeWhile_append_cons {test : Char → Bool} {d : Char} (hd : test d = false)
    (cs ds : List Char) : (cs ++ d :: ds).takeWhile test = cs.takeWhile test := by
  induction cs with
  | nil => simp [hd]
  | cons c cs ih => rw [List.cons_append, List.takeWhile_cons, List.takeWhile_cons, ih]

private theorem dropWhile_append_cons {test : Char → Bool} {d : Char} (hd : test d = false)
    (cs ds : List Char) :
    (cs ++ d :: ds).dropWhile test = cs.dropWhile test ++ d :: ds := by
  induction cs with
  | nil => simp [hd]
  | cons c cs ih =>
    rw [List.cons_append, List.dropWhile_cons, List.dropWhile_cons, ih]
    split <;> rfl

theorem of_mem_head?_dropWhile {test : Char → Bool} {cs : List Char} :
    ∀ d ∈ (cs.dropWhile test).head?, test d = false := by
  intro d hd
  have := List.head?_dropWhile_not test cs
  rw [Option.mem_def.mp hd] at this
  simpa using this

/-- The same cut with more text behind. -/
def Cut.extend {κ : Type} (cut : Cut κ) (tail : List Char) : Cut κ :=
  { cut with rest := cut.rest ++ tail }

theorem Cut.run_append {κ : Type} (kind : κ) (opening : List Char) {test : Char → Bool} {d : Char}
    (hd : test d = false) (cs ds : List Char) :
    run kind opening test (cs ++ d :: ds) = (run kind opening test cs).extend (d :: ds) := by
  rw [run, takeWhile_append_cons hd, dropWhile_append_cons hd]
  rfl

/-! ### Quotes -/

theorem throughQuote?_cons (quote : Char) {c : Char} (hc : c ≠ '\\') (cs : List Char) :
    throughQuote? quote (c :: cs) =
      if isBreak c then none
      else if c = quote then some ([c], cs)
      else (throughQuote? quote cs).map fun (body, rest) => (c :: body, rest) := by
  rw [throughQuote?]
  · simp only [hc, decide_false, Bool.false_or]
  · exact fun _ _ h => absurd h hc

/-- What closes a quote is found whatever comes behind it. -/
theorem throughQuote?_append_of_eq_some {quote : Char} {cs body rest : List Char}
    (h : throughQuote? quote cs = some (body, rest)) (ds : List Char) :
    throughQuote? quote (cs ++ ds) = some (body, rest ++ ds) := by
  fun_induction throughQuote? quote cs generalizing body rest with
  | case1 => cases h
  | case2 c cs hbreak ih =>
    obtain ⟨⟨_, _⟩, hs, he⟩ := Option.map_eq_some_iff.1 h
    cases he
    rw [List.cons_append, List.cons_append, throughQuote?, if_neg hbreak, ih hs]
    rfl
  | case3 => cases h
  | case4 cs _ hstop =>
    obtain ⟨hescape, hbreak⟩ : quote ≠ '\\' ∧ ¬isBreak quote = true := by simpa using hstop
    cases h
    rw [List.cons_append, throughQuote?_cons quote hescape, if_neg hbreak, if_pos rfl]
  | case5 c cs _ hstop hne ih =>
    obtain ⟨hescape, hbreak⟩ : c ≠ '\\' ∧ ¬isBreak c = true := by simpa using hstop
    obtain ⟨⟨_, _⟩, hs, he⟩ := Option.map_eq_some_iff.1 h
    cases he
    rw [List.cons_append, throughQuote?_cons quote hescape, if_neg hbreak, if_neg hne, ih hs]
    rfl
  | case6 => cases h

/-- A quote without a partner has none beyond a break either. -/
theorem throughQuote?_append_of_eq_none {quote : Char} {cs : List Char}
    (h : throughQuote? quote cs = none) {d : Char} (hd : isBreak d = true) (ds : List Char) :
    throughQuote? quote (cs ++ d :: ds) = none := by
  fun_induction throughQuote? quote cs with
  | case1 c cs hbreak => rw [List.cons_append, List.cons_append, throughQuote?, if_pos hbreak]
  | case2 c cs hbreak ih =>
    rw [List.cons_append, List.cons_append, throughQuote?, if_neg hbreak,
      ih (Option.map_eq_none_iff.1 h), Option.map_none]
  | case3 c cs hne hstop =>
    by_cases hescape : c = '\\'
    -- A backslash at the end of the text takes the break along.
    · cases cs with
      | nil => rw [hescape, List.cons_append, List.nil_append, throughQuote?, if_pos hd]
      | cons c' cs => exact absurd rfl (hne c' cs hescape)
    · rw [List.cons_append, throughQuote?_cons quote hescape,
        if_pos (by simpa [hescape] using hstop)]
  | case4 => cases h
  | case5 c cs _ hstop hne ih =>
    obtain ⟨hescape, hbreak⟩ : c ≠ '\\' ∧ ¬isBreak c = true := by simpa using hstop
    rw [List.cons_append, throughQuote?_cons quote hescape, if_neg hbreak, if_neg hne,
      ih (Option.map_eq_none_iff.1 h), Option.map_none]
  | case6 =>
    have hescape : d ≠ '\\' := by
      rintro rfl
      exact absurd hd (by decide)
    rw [List.nil_append, throughQuote?_cons quote hescape, if_pos hd]

/-! ### Lexemes -/

namespace Lexeme

private theorem getD_quoted?_append (kind : TokenKind) {quote : Char} {cs : List Char} {d : Char}
    (h : isBreak d = true ∨ (throughQuote? quote cs).isSome = true) (ds : List Char) :
    (quoted? kind quote (cs ++ d :: ds)).getD (single quote (cs ++ d :: ds)) =
      ((quoted? kind quote cs).getD (single quote cs)).extend (d :: ds) := by
  rw [quoted?, quoted?]
  cases hthrough : throughQuote? quote cs with
  | none =>
    have hd : isBreak d = true := h.resolve_right (by simp [hthrough])
    rw [throughQuote?_append_of_eq_none hthrough hd]
    rfl
  | some found =>
    rw [throughQuote?_append_of_eq_some hthrough]
    rfl

private theorem startsWithDigit_append {d : Char} (hd : isSpace d = true) (cs ds : List Char) :
    startsWithDigit (cs ++ d :: ds) = startsWithDigit cs := by
  cases cs with
  | nil => simp [startsWithDigit, (not_of_isSpace hd).2.1]
  | cons c cs => rfl

private theorem number_append {d : Char} (hd : isSpace d = true) (c : Char) (cs ds : List Char) :
    number c (cs ++ d :: ds) = (number c cs).extend (d :: ds) := by
  obtain ⟨-, hdigit, hdot⟩ := not_of_isSpace hd
  rw [number, number, takeWhile_append_cons hdigit, dropWhile_append_cons hdigit]
  cases hrest : cs.dropWhile Char.isDigit with
  | nil =>
    rw [List.nil_append]
    split
    · next heq => exact absurd (List.cons.inj heq).1 hdot
    · rfl
  | cons x xs =>
    rw [List.cons_append]
    by_cases hx : x = '.'
    · subst hx
      simp only [startsWithDigit_append hd]
      split
      · exact Cut.run_append _ _ hdigit xs ds
      · rfl
    · split
      · next heq => exact absurd (List.cons.inj heq).1 hx
      · split
        · next heq => exact absurd (List.cons.inj heq).1 hx
        · rfl

/-- Digits with a dot and another digit behind them are a float. -/
theorem number_of_fraction {cs rest : List Char}
    (hrest : cs.dropWhile Char.isDigit = '.' :: rest) (hdigit : startsWithDigit rest = true)
    (c : Char) :
    number c cs = .run .float (c :: (cs.takeWhile Char.isDigit ++ ['.'])) Char.isDigit rest := by
  simp only [number, hrest, if_pos hdigit]

/-- Digits without a fraction behind them are an integer. -/
theorem number_of_not_fraction {cs : List Char} (h : ∀ rest,
      cs.dropWhile Char.isDigit = '.' :: rest → ¬startsWithDigit rest = true) (c : Char) :
    number c cs = ⟨.integer, c :: cs.takeWhile Char.isDigit, cs.dropWhile Char.isDigit⟩ := by
  rw [number]
  split
  · next rest hrest => rw [if_neg (h rest hrest), hrest]
  · rfl

/-- A number has a fraction or not, and is a float or an integer by this. -/
theorem number_cases (c : Char) (cs : List Char) :
    (∃ rest, cs.dropWhile Char.isDigit = '.' :: rest ∧ startsWithDigit rest = true ∧
        number c cs = .run .float (c :: (cs.takeWhile Char.isDigit ++ ['.'])) Char.isDigit rest) ∨
      (∀ rest, cs.dropWhile Char.isDigit = '.' :: rest → ¬startsWithDigit rest = true) ∧
        number c cs = ⟨.integer, c :: cs.takeWhile Char.isDigit, cs.dropWhile Char.isDigit⟩ := by
  by_cases hfraction : ∃ rest, cs.dropWhile Char.isDigit = '.' :: rest ∧ startsWithDigit rest = true
  · obtain ⟨rest, hrest, hdigit⟩ := hfraction
    exact .inl ⟨rest, hrest, hdigit, number_of_fraction hrest hdigit c⟩
  · have hnone : ∀ rest, cs.dropWhile Char.isDigit = '.' :: rest → ¬startsWithDigit rest = true :=
      fun rest hrest hdigit => hfraction ⟨rest, hrest, hdigit⟩
    exact .inr ⟨hnone, number_of_not_fraction hnone c⟩

/-- A lexeme is the same whatever comes behind a space that follows it. -/
theorem next_append {before : Option Char} {c d : Char} {cs : List Char} (hd : isSpace d = true)
    (hquote : c = '"' ∨ c = '\'' → isBreak d = true ∨ (throughQuote? c cs).isSome = true)
    (ds : List Char) : next before c (cs ++ d :: ds) = (next before c cs).extend (d :: ds) := by
  obtain ⟨hword, hdigit, -⟩ := not_of_isSpace hd
  rw [next, next, startsWithDigit_append hd]
  split
  · exact Cut.run_append _ _ hword cs ds
  split
  · exact number_append hd c cs ds
  split
  · exact Cut.run_append _ _ hdigit cs ds
  split
  · next hc => exact getD_quoted?_append _ (hquote (.inl hc)) ds
  split
  · next hc => exact getD_quoted?_append _ (hquote (.inr hc)) ds
  · rfl

/-- Of the text before it a lexeme learns only whether it ends in a word. -/
theorem next_congr {before before' : Option Char} (h : before.any isWord = before'.any isWord)
    (c : Char) (cs : List Char) : next before c cs = next before' c cs := by
  rw [next, next, h]

end Lexeme

/-! ### Gaps -/

/-- A text without trivia at its front does not begin with a space. -/
theorem Trivia.isSpace_eq_false_of_next?_eq_none {c : Char} {cs : List Char}
    (h : next? (c :: cs) = none) : isSpace c = false := by
  rw [next?_cons] at h
  rw [isSpace, Bool.or_eq_false_iff]
  split at h
  · cases h
  · next hblank =>
    split at h
    · split at h <;> cases h
    · next hbreak => exact ⟨by simpa using hblank, by simpa using hbreak⟩

theorem Trivia.isBreak_eq_false_of_next?_eq_none {c : Char} {cs : List Char}
    (h : next? (c :: cs) = none) : isBreak c = false :=
  (Bool.or_eq_false_iff.mp (isSpace_eq_false_of_next?_eq_none h)).2

namespace Gap

theorem scan_of_next?_eq_none {cs : List Char} (h : Trivia.next? cs = none) (position : Nat) :
    scan position cs = ⟨[], [], cs⟩ := by
  rw [scan]
  split
  · rfl
  · next hcut => cases h.symm.trans hcut

theorem scan_of_next?_eq_some {cs : List Char} {cut : Cut TriviaKind}
    (h : Trivia.next? cs = some cut) (position : Nat) :
    scan position cs =
      ⟨Trivia.ofCut position cut :: (scan (position + byteLength cut.piece) cut.rest).items,
        cut.piece ++ (scan (position + byteLength cut.piece) cut.rest).piece,
        (scan (position + byteLength cut.piece) cut.rest).rest⟩ := by
  rw [scan]
  split
  · next hnone => cases h.symm.trans hnone
  · next hcut =>
    obtain rfl := Option.some.inj (h.symm.trans hcut)
    rfl

/-- How a text is divided into a gap and a rest does not depend on where it stands. -/
theorem scan_position (p q : Nat) (cs : List Char) :
    (scan p cs).piece = (scan q cs).piece ∧ (scan p cs).rest = (scan q cs).rest := by
  fun_induction scan p cs generalizing q with
  | case1 p cs h =>
    rw [scan_of_next?_eq_none h]
    exact ⟨rfl, rfl⟩
  | case2 p cs cut h gap ih =>
    rw [scan_of_next?_eq_some h]
    obtain ⟨hpiece, hrest⟩ := ih (q + byteLength cut.piece)
    exact ⟨congrArg (cut.piece ++ ·) hpiece, hrest⟩

/-- There are items where there are characters. -/
theorem items_eq_nil_iff (position : Nat) (cs : List Char) :
    (scan position cs).items = [] ↔ (scan position cs).piece = [] := by
  cases h : Trivia.next? cs with
  | none => simp [scan_of_next?_eq_none h]
  | some cut => simp [scan_of_next?_eq_some h, (Trivia.of_next? h).piece_ne_nil]

theorem isEmpty_items_position (p q : Nat) (cs : List Char) :
    (scan p cs).items.isEmpty = (scan q cs).items.isEmpty := by
  rw [Bool.eq_iff_iff, List.isEmpty_iff, List.isEmpty_iff, items_eq_nil_iff, items_eq_nil_iff,
    (scan_position p q cs).1]

private theorem exists_next?_space {c : Char} {cs : List Char} (hc : isSpace c = true)
    (hcs : Trivia.next? cs = none) (gap : List Char) :
    ∃ cut gap', Trivia.next? (c :: (gap ++ cs)) = some cut ∧ cut.rest = gap' ++ cs ∧
      gap' <:+ gap := by
  have hother : ∀ d ∈ cs.head?, isBlank d = false ∧ isBreak d = false := by
    intro d hd
    obtain ⟨ds, rfl⟩ := List.head?_eq_some_iff.mp hd
    exact Bool.or_eq_false_iff.mp (Trivia.isSpace_eq_false_of_next?_eq_none hcs)
  rw [Trivia.next?_cons]
  split
  · refine ⟨_, gap.dropWhile isBlank, rfl, ?_, List.dropWhile_suffix _⟩
    cases cs with
    | nil => rw [Cut.run, List.append_nil, List.append_nil]
    | cons d ds => exact dropWhile_append_cons (hother d rfl).1 gap ds
  · next hblank =>
    rw [if_pos (by simpa [isSpace, hblank] using hc)]
    split
    · next hpair =>
      -- The line feed belongs to the gap since the text behind does not begin with one.
      cases gap with
      | nil => exact absurd (hother '\n' (by simpa using hpair.2)).2 (by decide)
      | cons d gap => exact ⟨_, gap, rfl, rfl, List.suffix_cons d gap⟩
    · exact ⟨_, gap, rfl, rfl, List.suffix_refl gap⟩

/-- Spaces in front of a text without trivia are a gap. -/
theorem scan_spaces {gap cs : List Char} (hgap : ∀ c ∈ gap, isSpace c = true)
    (hcs : Trivia.next? cs = none) (position : Nat) :
    (scan position (gap ++ cs)).piece = gap ∧ (scan position (gap ++ cs)).rest = cs := by
  have hrest : (scan position (gap ++ cs)).rest = cs := by
    induction hn : gap.length using Nat.strong_induction_on generalizing gap position with
    | _ n ih =>
      cases gap with
      | nil => rw [List.nil_append, scan_of_next?_eq_none hcs]
      | cons c gap =>
        obtain ⟨hc, hgap⟩ := List.forall_mem_cons.mp hgap
        obtain ⟨cut, gap', hcut, hrest, hsuffix⟩ := exists_next?_space hc hcs gap
        have hlt : gap'.length < n := hn ▸ Nat.lt_succ_of_le hsuffix.length_le
        rw [List.cons_append, scan_of_next?_eq_some hcut, hrest]
        exact ih _ hlt (fun d hd => hgap d (hsuffix.subset hd)) _ rfl
  have happend := scan_append position (gap ++ cs)
  rw [hrest] at happend
  exact ⟨List.append_cancel_right happend, hrest⟩

end Gap

/-- The tokens of a text that is not empty, by its first lexeme and the gap behind it. -/
theorem Token.scan_cons {before : Option Char} {c : Char} {cs : List Char} {lexeme : Cut TokenKind}
    {position : Nat} {piece rest : List Char} (hlexeme : Lexeme.next before c cs = lexeme)
    (hpiece : (Gap.scan (position + byteLength lexeme.piece) lexeme.rest).piece = piece)
    (hrest : (Gap.scan (position + byteLength lexeme.piece) lexeme.rest).rest = rest)
    (leading : List Trivia) :
    scan leading before position (c :: cs) =
      ofCut position lexeme leading
          (Gap.scan (position + byteLength lexeme.piece) lexeme.rest).items ::
        scan [] (lexeme.piece ++ piece).getLast?
          (position + byteLength lexeme.piece + byteLength piece) rest := by
  rw [scan, hlexeme, ← hpiece, ← hrest]

end LosslessSyntax
