import LosslessSyntax.Proofs.Token.Seam
import Mathlib.Data.List.ModifyLast

/-!
# Tokens of an excerpt

A stretch of a text that goes from the start of a token to the end of one has by itself the tokens
that it has in the text, as far as these are neither dots nor quotes that stand for themselves
(`tokenize_excerpt`). They are further to the front by what was cut off there, and the trivia on
both sides of the stretch is gone.

A lexeme learns of the text behind it only whether it ends (`Lexeme.next_of_goesOn`), and an item of
trivia that has more text behind it was ended there (`Trivia.next?_of_head?_eq`). Only a dot is
something else where no word stands in front of it, and a quote without its partner may find one.
-/

namespace LosslessSyntax

/-! ### Text instead of other text -/

/-- The text `ds` goes on as `rest` does, or with a semicolon, or not at all. -/
def GoesOn (rest ds : List Char) : Prop :=
  ∀ d ∈ ds.head?, rest.head? = some d ∨ d = ';'

theorem GoesOn.append_left {rest ds : List Char} (h : GoesOn rest ds) (front : List Char) :
    GoesOn (front ++ rest) (front ++ ds) := by
  cases front with
  | nil => exact h
  | cons c front => exact fun d hd => .inl hd

/-- The same cut with other text behind. -/
def Cut.before {κ : Type} (cut : Cut κ) (ds : List Char) : Cut κ :=
  { cut with rest := ds }

theorem GoesOn.of_dropWhile {test : Char → Bool} (htest : test ';' = false) {cs ds : List Char}
    (h : GoesOn (cs.dropWhile test) ds) : ∀ d ∈ ds.head?, test d = false := by
  intro d hd
  rcases h d hd with hrest | rfl
  · exact of_mem_head?_dropWhile d hrest
  · exact htest

theorem takeWhile_append_of_head? {test : Char → Bool} {ds : List Char}
    (hds : ∀ d ∈ ds.head?, test d = false) (cs : List Char) :
    (cs.takeWhile test ++ ds).takeWhile test = cs.takeWhile test ∧
      (cs.takeWhile test ++ ds).dropWhile test = ds :=
  takeWhile_append_of_run (fun _ hc => List.mem_takeWhile_imp hc) hds

/-- A run is the same in front of any text that does not belong to it. -/
theorem Cut.run_takeWhile_append {κ : Type} (kind : κ) (opening : List Char) {test : Char → Bool}
    {ds : List Char} (hds : ∀ d ∈ ds.head?, test d = false) (cs : List Char) :
    run kind opening test (cs.takeWhile test ++ ds) = (run kind opening test cs).before ds := by
  obtain ⟨htake, hdrop⟩ := takeWhile_append_of_head? hds cs
  rw [run, htake, hdrop]
  rfl

/-- A quote that is closed is closed in front of any text. -/
theorem throughQuote?_append_of_append {quote : Char} {cs body rest : List Char}
    (h : throughQuote? quote cs = some (body, rest)) (ds : List Char) :
    throughQuote? quote (body ++ ds) = some (body, ds) := by
  fun_induction throughQuote? quote cs generalizing body rest with
  | case1 => cases h
  | case2 c cs hbreak ih =>
    obtain ⟨⟨_, _⟩, hs, he⟩ := Option.map_eq_some_iff.1 h
    cases he
    rw [List.cons_append, List.cons_append, throughQuote?, if_neg hbreak, ih hs]
    rfl
  | case3 => cases h
  | case4 cs _ hstop =>
    obtain ⟨hescape, hbreak⟩ : quote ≠ '\\' ∧ ¬isBreak quote = true := by simpa using hstop
    cases h
    rw [List.cons_append, List.nil_append, throughQuote?_cons quote hescape, if_neg hbreak,
      if_pos rfl]
  | case5 c cs _ hstop hne ih =>
    obtain ⟨hescape, hbreak⟩ : c ≠ '\\' ∧ ¬isBreak c = true := by simpa using hstop
    obtain ⟨⟨_, _⟩, hs, he⟩ := Option.map_eq_some_iff.1 h
    cases he
    rw [List.cons_append, throughQuote?_cons quote hescape, if_neg hbreak, if_neg hne, ih hs]
    rfl
  | case6 => cases h

/-- A comment that has text behind it is closed, and so in front of any text. -/
theorem throughClosing_append_of_ne_nil {cs : List Char} (h : (throughClosing cs).2 ≠ [])
    (ds : List Char) :
    throughClosing ((throughClosing cs).1 ++ ds) = ((throughClosing cs).1, ds) := by
  fun_induction throughClosing cs with
  | case1 => exact absurd rfl h
  | case2 => rfl
  | case3 c cs hopen ih =>
    have hhead : c = '*' → ((throughClosing cs).1 ++ ds).head? ≠ some '/' := by
      cases cs with
      | nil => exact absurd rfl h
      | cons x xs =>
        obtain ⟨body, hbody⟩ := List.head?_eq_some_iff.mp (head?_throughClosing (x :: xs))
        rw [hbody]
        exact fun hc hx => hopen xs hc (congrArg (· :: xs) (Option.some.inj hx))
    rw [List.cons_append, throughClosing_cons hhead, ih h]

/-! ### Trivia -/

/-- An item of trivia is the same in front of any text that begins as the text behind it does. -/
theorem Trivia.next?_of_head?_eq {cs : List Char} {cut : Cut TriviaKind} (h : next? cs = some cut)
    (hrest : cut.rest ≠ []) {ds : List Char} (hds : ds.head? = cut.rest.head?) :
    next? (cut.piece ++ ds) = some (cut.before ds) := by
  cases cs with
  | nil => cases h
  | cons c cs =>
    rw [next?_cons] at h
    split at h
    · next hblank =>
      cases h
      have hrun : Cut.run TriviaKind.whitespace [c] isBlank (cs.takeWhile isBlank ++ ds) = _ :=
        Cut.run_takeWhile_append _ _ (hds ▸ of_mem_head?_dropWhile) cs
      exact (next?_cons c _).trans ((if_pos hblank).trans (congrArg some hrun))
    split at h
    · next hblank hbreak =>
      split at h
      · cases h
        rfl
      · next hpair =>
        cases h
        rw [List.singleton_append, next?_cons, if_neg hblank, if_pos hbreak,
          if_neg (by rwa [hds])]
        rfl
    split at h
    · cases h
      exact congrArg some (Cut.run_takeWhile_append TriviaKind.singleLineComment ['/', '/']
        (hds ▸ of_mem_head?_dropWhile) cs.tail)
    split at h
    · cases h
      have hblock (cs : List Char) : next? ('/' :: '*' :: cs) =
        some ⟨.multiLineComment, '/' :: '*' :: (throughClosing cs).1, (throughClosing cs).2⟩ := rfl
      rw [List.cons_append, List.cons_append, hblock, throughClosing_append_of_ne_nil hrest]
      rfl
    · cases h

theorem Trivia.next?_eq_none_of_goesOn {c : Char} {cs ds : List Char} (h : next? (c :: cs) = none)
    (hgoes : GoesOn cs ds) : next? (c :: ds) = none := by
  have hhead {d : Char} (hd : d ≠ ';') (hcs : ¬(c = '/' ∧ cs.head? = some d)) :
      ¬(c = '/' ∧ ds.head? = some d) := fun hds =>
    hcs ⟨hds.1, (hgoes d hds.2).resolve_right hd⟩
  rw [next?_cons] at h ⊢
  split at h
  · cases h
  split at h
  · split at h <;> cases h
  split at h
  · cases h
  split at h
  · cases h
  · next hblank hbreak hline hblock =>
    rw [if_neg hblank, if_neg hbreak, if_neg (hhead (by decide) hline),
      if_neg (hhead (by decide) hblock)]

/-- A gap is the same in front of any text that begins as the text behind it does. -/
theorem Gap.scan_of_head?_eq (position : Nat) {cs : List Char}
    (hrest : (scan position cs).rest ≠ []) {ds : List Char}
    (hds : ds.head? = (scan position cs).rest.head?)
    (hnext : Trivia.next? ds = none) :
    scan position ((scan position cs).piece ++ ds) =
      ⟨(scan position cs).items, (scan position cs).piece, ds⟩ := by
  fun_induction scan position cs with
  | case1 position cs h => rw [List.nil_append, scan_of_next?_eq_none hnext]
  | case2 position cs cut h gap ih =>
    have happend : gap.piece ++ gap.rest = cut.rest := scan_append _ _
    have hhead : (gap.piece ++ ds).head? = cut.rest.head? := by
      rw [← happend, List.head?_append, List.head?_append, hds]
    have hne : cut.rest ≠ [] := happend ▸ List.append_ne_nil_of_right_ne_nil _ hrest
    have hcut := Trivia.next?_of_head?_eq h hne hhead
    have hgap : scan (position + byteLength cut.piece) (gap.piece ++ ds) =
      ⟨gap.items, gap.piece, ds⟩ := ih hrest hds
    rw [List.append_assoc, scan_of_next?_eq_some hcut, Cut.before, hgap]
    rfl

/-! ### Lexemes -/

theorem val_le_of_isDigit {c : Char} (h : c.isDigit = true) : c.val ≤ 57 := by
  simp only [Char.isDigit, Bool.and_eq_true, decide_eq_true_eq] at h
  exact h.2

theorem isAscii_of_isDigit {c : Char} (h : c.isDigit = true) : isAscii c = true := by
  rw [isAscii, decide_eq_true_eq]
  exact Nat.lt_of_le_of_lt (val_le_of_isDigit h) (by decide)

theorem isWord_of_isDigit {c : Char} (h : c.isDigit = true) : isWord c = true := by
  rw [isWord, isAlphanumeric_of_isAscii (isAscii_of_isDigit h)]
  simp [Char.isAlphanum, h]

theorem startsWithDigit_takeWhile_append {cs : List Char} (h : startsWithDigit cs = true)
    (ds : List Char) : startsWithDigit (cs.takeWhile Char.isDigit ++ ds) = true := by
  cases cs with
  | nil => cases h
  | cons c cs =>
    have hc : c.isDigit = true := h
    rw [List.takeWhile_cons_of_pos hc]
    exact h

/-- The kinds that a character has only because of the text around it: the same dot may begin a
fraction elsewhere, and the same quote a literal. -/
def TokenKind.contextual : List TokenKind :=
  [.dot, .doubleQuote, .singleQuote]

namespace Lexeme

private theorem number_of_goesOn {c : Char} (hc : c.isDigit = true) {cs ds : List Char}
    (hgoes : GoesOn (number c cs).rest ds)
    (hword : (number c cs).piece.getLast?.any isWord = true → ds.head? ≠ some '.') :
    ∃ cs', (number c cs).piece ++ ds = c :: cs' ∧ number c cs' = (number c cs).before ds := by
  rcases number_cases c cs with ⟨rest, hrest, hdigit, hnumber⟩ | ⟨-, hnumber⟩
  · rw [hnumber] at hgoes ⊢
    have hds := hgoes.of_dropWhile (by decide)
    have hhead : ∀ d ∈ ('.' :: (rest.takeWhile Char.isDigit ++ ds)).head?, d.isDigit = false := by
      simp
    obtain ⟨htake, hdrop⟩ := takeWhile_append_of_head? hhead cs
    refine ⟨cs.takeWhile Char.isDigit ++ '.' :: (rest.takeWhile Char.isDigit ++ ds),
      by simp [Cut.run], ?_⟩
    rw [number_of_fraction hdrop (startsWithDigit_takeWhile_append hdigit ds), htake,
      Cut.run_takeWhile_append _ _ hds]
  · rw [hnumber] at hgoes hword ⊢
    have hds := hgoes.of_dropWhile (by decide)
    obtain ⟨htake, hdrop⟩ := takeWhile_append_of_head? hds cs
    -- The last digit is part of a word, therefore no dot comes behind it.
    have hlast : (c :: cs.takeWhile Char.isDigit).getLast?.any isWord = true := by
      have hall : ∀ d ∈ c :: cs.takeWhile Char.isDigit, d.isDigit = true :=
        List.forall_mem_cons.mpr ⟨hc, fun d hd => List.mem_takeWhile_imp hd⟩
      rw [List.getLast?_eq_some_getLast (List.cons_ne_nil _ _), Option.any_some]
      exact isWord_of_isDigit (hall _ (List.getLast_mem _))
    refine ⟨cs.takeWhile Char.isDigit ++ ds, rfl, ?_⟩
    rw [number_of_not_fraction, htake, hdrop]
    · rfl
    · intro rest hrest
      rw [hdrop] at hrest
      exact absurd (by rw [hrest]; rfl) (hword hlast)

private theorem getD_quoted?_of_append {kind : TokenKind} {quote : Char} {cs : List Char}
    (hkind : ((quoted? kind quote cs).getD (single quote cs)).kind ≠ (single quote cs).kind)
    (ds : List Char) :
    ∃ cs', ((quoted? kind quote cs).getD (single quote cs)).piece ++ ds = quote :: cs' ∧
      (quoted? kind quote cs').getD (single quote cs') =
        ((quoted? kind quote cs).getD (single quote cs)).before ds := by
  rw [quoted?] at hkind ⊢
  cases hthrough : throughQuote? quote cs with
  | none =>
    rw [hthrough] at hkind
    exact absurd rfl hkind
  | some found =>
    refine ⟨found.1 ++ ds, rfl, ?_⟩
    rw [quoted?, throughQuote?_append_of_append hthrough]
    rfl

/-- A lexeme is the same in front of any text that goes on as the text behind it does. A dot behind
a word stands for itself, hence the text should not begin with one. -/
theorem next_of_goesOn {before : Option Char} {c : Char} {cs ds : List Char}
    (hkind : (next before c cs).kind ∉ TokenKind.contextual)
    (hgoes : GoesOn (next before c cs).rest ds)
    (hword : (next before c cs).piece.getLast?.any isWord = true → ds.head? ≠ some '.') :
    ∃ cs', (next before c cs).piece ++ ds = c :: cs' ∧
      next before c cs' = (next before c cs).before ds := by
  unfold next at hkind hgoes hword ⊢
  split at hgoes
  · next hstart =>
    rw [if_pos hstart]
    exact ⟨cs.takeWhile isWord ++ ds, rfl, (if_pos hstart).trans
      (Cut.run_takeWhile_append _ _ (hgoes.of_dropWhile (by decide +kernel)) cs)⟩
  split at hgoes
  · next hstart hdigit =>
    rw [if_neg hstart, if_pos hdigit] at hword
    simp only [if_neg hstart, if_pos hdigit]
    exact number_of_goesOn hdigit hgoes hword
  split at hgoes
  · next hstart hdigit hfraction =>
    simp only [if_neg hstart, if_neg hdigit, if_pos hfraction]
    refine ⟨cs.takeWhile Char.isDigit ++ ds, rfl, ?_⟩
    rw [if_pos]
    · exact Cut.run_takeWhile_append _ _ (hgoes.of_dropWhile (by decide)) cs
    · simp only [Bool.and_eq_true] at hfraction ⊢
      exact ⟨⟨hfraction.1.1, startsWithDigit_takeWhile_append hfraction.1.2 ds⟩, hfraction.2⟩
  · next hstart hdigit hfraction =>
    rw [if_neg hstart, if_neg hdigit, if_neg hfraction] at hkind
    have hne : c ≠ '.' := by
      rintro rfl
      exact hkind (by decide : TokenKind.dot ∈ TokenKind.contextual)
    simp only [if_neg hstart, if_neg hdigit, decide_eq_false hne, Bool.false_and,
      Bool.false_eq_true, if_false]
    split at hkind
    · next hquote =>
      simp only [if_pos hquote]
      refine getD_quoted?_of_append (fun heq => hkind ?_) ds
      rw [heq, hquote]
      exact (by decide : TokenKind.doubleQuote ∈ TokenKind.contextual)
    split at hkind
    · next hquote hchar =>
      simp only [if_neg hquote, if_pos hchar]
      refine getD_quoted?_of_append (fun heq => hkind ?_) ds
      rw [heq, hchar]
      exact (by decide : TokenKind.singleQuote ∈ TokenKind.contextual)
    · next hquote hchar =>
      simp only [if_neg hquote, if_neg hchar]
      exact ⟨ds, rfl, rfl⟩

/-- Behind a word no token begins with a dot but the dot itself. -/
theorem kind_next_dot {before : Option Char} (hbefore : before.any isWord = true) (cs : List Char) :
    (next before '.' cs).kind = .dot := by
  have hstart : ¬startsWord '.' = true := by decide +kernel
  rw [next, if_neg hstart, if_neg (by decide), if_neg (by simp [hbefore]), if_neg (by decide),
    if_neg (by decide)]
  rfl

/-- A lexeme that is no dot is the same whatever the text in front of it is. -/
theorem next_none {before : Option Char} {c : Char} {cs : List Char}
    (hdot : (next before c cs).kind ≠ .dot) : next none c cs = next before c cs := by
  by_cases hbefore : before.any isWord = true
  · have hc : c ≠ '.' := by
      rintro rfl
      exact hdot (kind_next_dot hbefore cs)
    rw [next, next, decide_eq_false hc]
    rfl
  · exact next_congr (by simpa using hbefore) c cs

end Lexeme

/-! ### Tokens -/

namespace Token

/-- A token without the trivia in front of it. -/
def withoutLeading (token : Token) : Token :=
  { token with leading := [] }

/-- A token without the trivia behind it. -/
def withoutTrailing (token : Token) : Token :=
  { token with trailing := [] }

/-- A text that is not empty is a lexeme, a gap and the text behind them, and so are its tokens. -/
theorem exists_scan_cons (leading : List Trivia) (before : Option Char) (position : Nat)
    (c : Char) (cs : List Char) :
    ∃ (lexeme : Cut TokenKind) (gap : Gap), Lexeme.next before c cs = lexeme ∧
      Gap.scan (position + byteLength lexeme.piece) lexeme.rest = gap ∧
      lexeme.piece ≠ [] ∧ c :: cs = lexeme.piece ++ (gap.piece ++ gap.rest) ∧
      Trivia.next? gap.rest = none ∧
      scan leading before position (c :: cs) = ofCut position lexeme leading gap.items ::
        scan [] (lexeme.piece ++ gap.piece).getLast?
          (position + byteLength lexeme.piece + byteLength gap.piece) gap.rest := by
  have hof := Lexeme.of_next before c cs
  refine ⟨_, _, rfl, rfl, hof.piece_ne_nil, ?_, Gap.next?_rest _ _, by rw [scan]⟩
  rw [Gap.scan_append, hof.append_eq]

/-- The first token is the same in front of any text that goes on as the text behind it does. -/
private theorem scan_of_goesOn (leading : List Trivia) (position : Nat) {before : Option Char}
    {c : Char} {cs ds : List Char} {lexeme : Cut TokenKind} {gap : Gap}
    (hlexeme : Lexeme.next before c cs = lexeme)
    (hgap : Gap.scan (position + byteLength lexeme.piece) ds = gap)
    (hkind : lexeme.kind ∉ TokenKind.contextual) (hnext : Trivia.next? (c :: cs) = none)
    (hgoes : GoesOn lexeme.rest ds)
    (hword : lexeme.piece.getLast?.any isWord = true → ds.head? ≠ some '.') :
    Trivia.next? (lexeme.piece ++ ds) = none ∧
      scan leading before position (lexeme.piece ++ ds) =
        ofCut position lexeme leading gap.items ::
          scan [] (lexeme.piece ++ gap.piece).getLast?
            (position + byteLength lexeme.piece + byteLength gap.piece) gap.rest := by
  subst hlexeme hgap
  have hof := Lexeme.of_next before c cs
  obtain ⟨cs', hcs', hlexeme⟩ := Lexeme.next_of_goesOn hkind hgoes hword
  have hbehind : GoesOn cs cs' := by
    obtain ⟨d, piece, hpiece⟩ := List.exists_cons_of_ne_nil hof.piece_ne_nil
    have happend := hof.append_eq
    rw [hpiece, List.cons_append, List.cons.injEq] at happend hcs'
    rw [← happend.2, ← hcs'.2]
    exact hgoes.append_left piece
  rw [hcs', scan, hlexeme]
  exact ⟨Trivia.next?_eq_none_of_goesOn hnext hbehind, rfl⟩

/-- The first token and the gap behind it are the same in front of any text that begins as the text
behind the gap does. -/
private theorem scan_of_head?_eq (leading : List Trivia) {position : Nat} {before : Option Char}
    {c : Char} {cs ds : List Char} {lexeme : Cut TokenKind} {gap : Gap}
    (hlexeme : Lexeme.next before c cs = lexeme)
    (hgap : Gap.scan (position + byteLength lexeme.piece) lexeme.rest = gap)
    (hkind : lexeme.kind ∉ TokenKind.contextual) (hnext : Trivia.next? (c :: cs) = none)
    (hword : (lexeme.piece ++ gap.piece).getLast?.any isWord = true → gap.rest.head? ≠ some '.')
    (hrest : gap.rest ≠ []) (hds : ds.head? = gap.rest.head?) (hnone : Trivia.next? ds = none) :
    Trivia.next? (lexeme.piece ++ (gap.piece ++ ds)) = none ∧
      scan leading before position (lexeme.piece ++ (gap.piece ++ ds)) =
        ofCut position lexeme leading gap.items ::
          scan [] (lexeme.piece ++ gap.piece).getLast?
            (position + byteLength lexeme.piece + byteLength gap.piece) ds := by
  have happend : gap.piece ++ gap.rest = lexeme.rest := hgap ▸ Gap.scan_append _ _
  have hhead : (gap.piece ++ ds).head? = lexeme.rest.head? := by
    rw [← happend, List.head?_append, List.head?_append, hds]
  have hsame : Gap.scan (position + byteLength lexeme.piece) (gap.piece ++ ds) =
      ⟨gap.items, gap.piece, ds⟩ := by
    subst hgap
    exact Gap.scan_of_head?_eq _ hrest hds hnone
  -- A dot right behind the lexeme would be the first character of the next token.
  have hdot : lexeme.piece.getLast?.any isWord = true → (gap.piece ++ ds).head? ≠ some '.' := by
    intro hlast hdot
    rw [hhead] at hdot
    obtain ⟨rest, hrest⟩ := List.head?_eq_some_iff.mp hdot
    have hdotNone : Trivia.next? lexeme.rest = none := by
      rw [hrest, Trivia.next?_cons]
      rfl
    rw [Gap.scan_of_next?_eq_none hdotNone] at hgap
    subst hgap
    rw [List.append_nil] at hword
    exact hword hlast hdot
  exact scan_of_goesOn leading position hlexeme hsame hkind hnext
    (fun d hd => .inl (hhead ▸ hd)) hdot

/-- A dot behind a word is a token. -/
private theorem head?_ne_dot_of_scan {leading : List Trivia} {before : Option Char} {position : Nat}
    {cs : List Char} {front back : List Token} {last : Token}
    (hscan : scan leading before position cs = front ++ last :: back)
    (hkinds : ∀ token ∈ front ++ [last], token.kind ∉ TokenKind.contextual)
    (hbefore : before.any isWord = true) : cs.head? ≠ some '.' := by
  intro hhead
  obtain ⟨cs, rfl⟩ := List.head?_eq_some_iff.mp hhead
  rw [scan, List.append_cons] at hscan
  obtain ⟨token, tokens, htokens⟩ := List.exists_cons_of_ne_nil
    (List.append_ne_nil_of_right_ne_nil front (List.cons_ne_nil last []))
  rw [htokens, List.cons_append] at hscan
  have hkind : token.kind = .dot := by
    rw [← (List.cons.inj hscan).1]
    exact Lexeme.kind_next_dot hbefore cs
  refine hkinds token (htokens ▸ List.mem_cons_self) ?_
  rw [hkind]
  decide

/-- A text may be cut off behind a token, and nothing or a semicolon be put there. The tokens up to
this one are the same, without the trivia that was behind. -/
theorem scan_cut {leading : List Trivia} {before : Option Char} {position : Nat} {cs : List Char}
    {front back : List Token} {last : Token}
    (hscan : scan leading before position cs = front ++ last :: back) (hback : back ≠ [])
    (hkinds : ∀ token ∈ front ++ [last], token.kind ∉ TokenKind.contextual)
    (hnext : Trivia.next? cs = none) :
    ∃ mid post, cs = mid ++ post ∧ mid ≠ [] ∧ last.span.stop = position + byteLength mid ∧
      ∀ tail : List Char, (∀ d ∈ tail.head?, d = ';') →
        Trivia.next? (mid ++ tail) = none ∧
        scan leading before position (mid ++ tail) =
          front ++
            last.withoutTrailing :: scan [] mid.getLast? (position + byteLength mid) tail := by
  induction front generalizing leading before position cs with
  | nil =>
    cases cs with
    | nil =>
      rw [scan] at hscan
      exact absurd (List.cons.inj hscan).2.symm hback
    | cons c cs =>
      rw [scan] at hscan
      obtain ⟨rfl, -⟩ := List.cons.inj hscan
      have hof := Lexeme.of_next before c cs
      refine ⟨_, _, hof.append_eq.symm, hof.piece_ne_nil, rfl, fun tail htail => ?_⟩
      have hgap : Trivia.next? tail = none := by
        cases tail with
        | nil => rfl
        | cons d tail => rw [htail d rfl]; rfl
      have hscan := scan_of_goesOn leading position rfl (Gap.scan_of_next?_eq_none hgap _)
        (hkinds _ List.mem_cons_self) hnext (fun d hd => .inr (htail d hd))
        (fun _ hdot => absurd (htail _ hdot) (by decide))
      rwa [List.append_nil] at hscan
  | cons token front ih =>
    cases cs with
    | nil =>
      rw [scan] at hscan
      exact absurd (List.cons.inj hscan).2 (by simp)
    | cons c cs =>
      obtain ⟨lexeme, gap, hlexeme, hgap, hpiece, htext, hgapNone, hfirst⟩ :=
        exists_scan_cons leading before position c cs
      rw [hfirst] at hscan
      obtain ⟨rfl, hbehind⟩ := List.cons.inj hscan
      obtain ⟨hkind, hkinds⟩ := List.forall_mem_cons.mp hkinds
      obtain ⟨mid, post, hmid, hne, hstop, hcut⟩ := ih hbehind hkinds hgapNone
      have hrest : gap.rest ≠ [] := hmid ▸ List.append_ne_nil_of_left_ne_nil hne post
      have hposition : position + byteLength (lexeme.piece ++ (gap.piece ++ mid)) =
          position + byteLength lexeme.piece + byteLength gap.piece + byteLength mid := by
        rw [byteLength_append, byteLength_append]
        omega
      refine ⟨lexeme.piece ++ (gap.piece ++ mid), post, ?_,
        List.append_ne_nil_of_left_ne_nil hpiece _, ?_, fun tail htail => ?_⟩
      · rw [htext, hmid, List.append_assoc, List.append_assoc]
      · rw [hstop, hposition]
      · obtain ⟨hnone, hscan⟩ := hcut tail htail
        have hhead : (mid ++ tail).head? = gap.rest.head? := by
          obtain ⟨d, mid, rfl⟩ := List.exists_cons_of_ne_nil hne
          rw [hmid]
          rfl
        have hfirst := scan_of_head?_eq leading hlexeme hgap hkind hnext
          (head?_ne_dot_of_scan hbehind hkinds) hrest hhead hnone
        have hlast : (lexeme.piece ++ (gap.piece ++ mid)).getLast? = mid.getLast? := by
          rw [← List.append_assoc, List.getLast?_append, List.getLast?_eq_some_getLast hne,
            Option.some_or]
        rw [List.append_assoc, List.append_assoc, hlast, hposition, List.cons_append, ← hscan]
        exact hfirst

/-- A text may be cut off in front of a token. -/
theorem scan_drop {leading : List Trivia} {before : Option Char} {position : Nat} {cs : List Char}
    {front back : List Token} (hscan : scan leading before position cs = front ++ back)
    (hback : back ≠ []) (hnext : Trivia.next? cs = none) :
    ∃ leading' before' passed rest, cs = passed ++ rest ∧ Trivia.next? rest = none ∧
      scan leading' before' (position + byteLength passed) rest = back := by
  induction front generalizing leading before position cs with
  | nil => exact ⟨leading, before, [], cs, rfl, hnext, hscan⟩
  | cons token front ih =>
    cases cs with
    | nil =>
      rw [scan] at hscan
      exact absurd (List.append_eq_nil_iff.mp (List.cons.inj hscan).2.symm).2 hback
    | cons c cs =>
      obtain ⟨lexeme, gap, -, -, -, htext, hgapNone, hfirst⟩ :=
        exists_scan_cons leading before position c cs
      rw [hfirst] at hscan
      obtain ⟨leading', before', passed, rest, hrest, hnone, hbehind⟩ :=
        ih (List.cons.inj hscan).2 hgapNone
      refine ⟨leading', before', lexeme.piece ++ (gap.piece ++ passed), rest, ?_, hnone, ?_⟩
      · rw [htext, hrest, List.append_assoc, List.append_assoc]
      · rw [byteLength_append, byteLength_append, ← Nat.add_assoc, ← Nat.add_assoc, hbehind]

end Token

/-! ### Moving down -/

/-- A span so many bytes further to the front. -/
def Span.moveDown (offset : Nat) (span : Span) : Span :=
  ⟨span.start - offset, span.length⟩

/-- An item of trivia so many bytes further to the front. -/
def Trivia.moveDown (offset : Nat) (item : Trivia) : Trivia :=
  { item with span := item.span.moveDown offset }

/-- A token and its trivia so many bytes further to the front. -/
def Token.moveDown (offset : Nat) (token : Token) : Token :=
  { token with
    span := token.span.moveDown offset
    leading := token.leading.map (Trivia.moveDown offset)
    trailing := token.trailing.map (Trivia.moveDown offset) }

theorem Gap.map_moveDown_scan (offset position : Nat) (cs : List Char) :
    (scan (offset + position) cs).items.map (Trivia.moveDown offset) =
      (scan position cs).items := by
  fun_induction scan position cs with
  | case1 position cs h =>
    rw [scan_of_next?_eq_none h]
    rfl
  | case2 position cs cut h gap ih =>
    rw [scan_of_next?_eq_some h, List.map_cons, Nat.add_assoc, ih]
    simp [Trivia.moveDown, Trivia.ofCut, Span.moveDown, gap]

namespace Token

theorem moveDown_ofCut (offset position : Nat) (cut : Cut TokenKind)
    (leading trailing : List Trivia) :
    (ofCut (offset + position) cut leading trailing).moveDown offset =
      ofCut position cut (leading.map (Trivia.moveDown offset))
        (trailing.map (Trivia.moveDown offset)) := by
  simp [moveDown, ofCut, Span.moveDown]

/-- The tokens of a text that stands elsewhere. -/
theorem map_moveDown_scan (offset : Nat) (leading : List Trivia) (before : Option Char)
    (position : Nat) (cs : List Char) :
    (scan leading before (offset + position) cs).map (moveDown offset) =
      scan (leading.map (Trivia.moveDown offset)) before position cs := by
  generalize hleading : leading.map (Trivia.moveDown offset) = leading'
  fun_induction scan leading' before position cs generalizing leading with
  | case1 leading' before position =>
    rw [scan]
    simp [moveDown, endAt, Span.moveDown, hleading]
  | @case2 leading' before position c cs lexeme stop gap ih =>
    obtain ⟨hpiece, hrest⟩ := Gap.scan_position (offset + position + byteLength lexeme.piece) stop
      lexeme.rest
    have hitems := Gap.map_moveDown_scan offset stop lexeme.rest
    rw [← Nat.add_assoc] at hitems
    have hposition : offset + position + byteLength lexeme.piece + byteLength gap.piece =
        offset + (stop + byteLength gap.piece) := by omega
    rw [scan_cons rfl hpiece hrest, hposition, List.map_cons, ih [] rfl, moveDown_ofCut, hleading,
      hitems]

/-- Trivia that is brought along goes to the first token. -/
theorem scan_nil_eq_modifyHead (leading : List Trivia) (before : Option Char) (position : Nat)
    (cs : List Char) :
    scan [] before position cs = (scan leading before position cs).modifyHead withoutLeading := by
  cases cs <;> rw [scan, scan] <;> rfl

theorem scan_none {leading : List Trivia} {before : Option Char} {position : Nat} {cs : List Char}
    (h : ∀ token ∈ (scan leading before position cs).head?, token.kind ≠ .dot) :
    scan leading none position cs = scan leading before position cs := by
  cases cs with
  | nil => rw [scan, scan]
  | cons c cs =>
    have hkind : (Lexeme.next before c cs).kind ≠ .dot := h _ (by rw [scan]; rfl)
    rw [scan, scan, Lexeme.next_none hkind]

/-- The semicolon that is put at a position. -/
def semicolonAt (position : Nat) : Token :=
  { kind := .semicolon, value := ";", span := ⟨position, 1⟩ }

theorem scan_nil (before : Option Char) (position : Nat) :
    scan [] before position [] = [endAt position] := by
  rw [scan]
  rfl

theorem scan_semicolon (before : Option Char) (position : Nat) :
    scan [] before position [';'] = [semicolonAt position, endAt (position + 1)] := by
  have hstart : ¬startsWord ';' = true := by decide +kernel
  have hlexeme : Lexeme.next before ';' [] = ⟨.semicolon, [';'], []⟩ := by
    rw [Lexeme.next, if_neg hstart, if_neg (by decide), if_neg (by simp), if_neg (by decide),
      if_neg (by decide)]
    rfl
  rw [scan, hlexeme, Gap.scan_of_next?_eq_none (by rfl), scan_nil]
  rfl

theorem start_of_mem_head?_scan (leading : List Trivia) (before : Option Char) (position : Nat)
    (cs : List Char) :
    ∀ token ∈ (scan leading before position cs).head?, token.span.start = position := by
  cases cs <;> rw [scan] <;> rintro _ ⟨⟩ <;> rfl

end Token

/-- From one of its tokens on the tokens of a text are those of the text behind a front part. -/
theorem exists_scan_of_tokenize {text : String} {front back : List Token}
    (h : tokenize text = front ++ back) (hback : back ≠ []) :
    ∃ leading before passed rest, text.toList = passed ++ rest ∧ Trivia.next? rest = none ∧
      Token.scan leading before (byteLength passed) rest = back := by
  obtain ⟨leading, before, passed, rest, hrest, hnext, hscan⟩ :=
    Token.scan_drop h hback (Gap.next?_rest 0 text.toList)
  refine ⟨leading, before, (Gap.scan 0 text.toList).piece ++ passed, rest, ?_, hnext, ?_⟩
  · rw [List.append_assoc, ← hrest, Gap.scan_append]
  · rwa [byteLength_append]

/-- **An excerpt has the tokens that stand in it.** Let some neighbouring tokens of a text be
neither dots nor quotes that stand for themselves, and let the text be cut off in front of the first
of them and behind the last, where nothing or a semicolon is put. The tokens of this text are those
tokens, moved down by what was cut off, without the trivia around them; and then those of what was
put behind. -/
theorem tokenize_excerpt {text : String} {front middle back : List Token}
    (h : tokenize text = front ++ (middle ++ back)) (hmiddle : middle ≠ []) (hback : back ≠ [])
    (hkinds : ∀ token ∈ middle, token.kind ∉ TokenKind.contextual) :
    ∃ before mid after, text.toList = before ++ (mid ++ after) ∧
      (∀ token ∈ middle.head?, token.span.start = byteLength before) ∧
      (∀ token ∈ middle.getLast?, token.span.stop = byteLength before + byteLength mid) ∧
      ∀ tail : List Char, (∀ d ∈ tail.head?, d = ';') →
        tokenize (String.ofList (mid ++ tail)) =
          ((middle.modifyLast Token.withoutTrailing).modifyHead Token.withoutLeading).map
              (Token.moveDown (byteLength before)) ++
            Token.scan [] mid.getLast? (byteLength mid) tail := by
  obtain ⟨leading, before', before, rest, htext, hnext, hscan⟩ :=
    exists_scan_of_tokenize h (List.append_ne_nil_of_left_ne_nil hmiddle back)
  have hhead := Token.start_of_mem_head?_scan leading before' (byteLength before) rest
  obtain ⟨inner, last, rfl⟩ : ∃ inner last, middle = inner ++ [last] :=
    ⟨_, _, (List.dropLast_concat_getLast hmiddle).symm⟩
  rw [List.append_assoc, List.singleton_append] at hscan
  obtain ⟨mid, post, hmid, hne, hstop, hcut⟩ := Token.scan_cut hscan hback hkinds hnext
  refine ⟨before, mid, post, by rw [htext, hmid], ?_, ?_, fun tail htail => ?_⟩
  · intro token htoken
    refine hhead token ?_
    rw [hscan, List.append_cons, List.head?_append, Option.mem_def.mp htoken, Option.some_or]
    rfl
  · rw [List.getLast?_concat]
    rintro _ ⟨⟩
    exact hstop
  · obtain ⟨hnone, hscan⟩ := hcut tail htail
    have hkinds' : ∀ token ∈ inner ++ [last.withoutTrailing],
        token.kind ∉ TokenKind.contextual := by
      obtain ⟨hinner, hlast⟩ := List.forall_mem_append.mp hkinds
      refine List.forall_mem_append.mpr ⟨hinner, fun token htoken => ?_⟩
      rw [List.mem_singleton.mp htoken]
      exact hlast last (List.mem_singleton_self last)
    obtain ⟨first, others, hcons⟩ := List.exists_cons_of_ne_nil
      (List.append_ne_nil_of_right_ne_nil inner (List.cons_ne_nil last.withoutTrailing []))
    rw [List.append_cons, hcons, List.cons_append] at hscan
    have hdot : first.kind ≠ .dot := by
      intro hdot
      have := hkinds' first (hcons ▸ List.mem_cons_self)
      rw [hdot] at this
      exact this (by decide)
    have hmoved := Token.map_moveDown_scan (byteLength before) [] none 0 (mid ++ tail)
    have hnoneScan := @Token.scan_none leading before' (byteLength before) (mid ++ tail)
      (by rw [hscan]; rintro _ ⟨⟩; exact hdot)
    rw [Nat.add_zero, Token.scan_nil_eq_modifyHead leading, hnoneScan, hscan] at hmoved
    have htail := Token.map_moveDown_scan (byteLength before) [] mid.getLast? (byteLength mid) tail
    rw [List.map_nil] at hmoved htail
    rw [List.modifyHead_cons, List.map_cons, List.map_append, htail] at hmoved
    rw [tokenize, String.toList_ofList, Gap.scan_of_next?_eq_none hnone, List.modifyLast_concat,
      hcons, List.modifyHead_cons, List.map_cons, List.cons_append, hmoved]
    rfl

end LosslessSyntax
