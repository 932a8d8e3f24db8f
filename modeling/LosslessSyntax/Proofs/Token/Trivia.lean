import LosslessSyntax.Proofs.Token.Consecutive
import LosslessSyntax.Proofs.Token.Context
import LosslessSyntax.Proofs.Token.Seam

/-!
# Lists of trivia

Each kind of trivia has its form (`Trivia.Form`): a run of blanks is as long as it can be, an end of
a line is one whole break, a comment of one line goes up to a break or to the end of the text, and a
block comment ends where it can be closed first or not at all. What an item is in front of is the
next item on its list or the text behind the list, so that its form tells of the next item as well
(`Trivia.WellFormed`). No trivia comes behind a list (`Trivia.Clear`), and an item at the end of a
text has no other after it (`getLast?_trivia_of_stop`).

So the lists of trivia of a text are well formed and as long as they can be (`trivia_listedIn`).
-/

namespace LosslessSyntax

/-! ### Comments that are not closed -/

/-- A text without a star that a slash follows. -/
def Unclosed (cs : List Char) : Prop :=
  ¬['*', '/'] <:+: cs

theorem unclosed_nil : Unclosed [] := by
  simp [Unclosed]

theorem unclosed_cons {c : Char} {cs : List Char} :
    Unclosed (c :: cs) ↔ (c = '*' → cs.head? ≠ some '/') ∧ Unclosed cs := by
  have hslash : ['/'] <+: cs ↔ cs.head? = some '/' := by
    cases cs with
    | nil => simp
    | cons d cs => simp [List.cons_prefix_cons, eq_comm]
  rw [Unclosed, Unclosed, List.infix_cons_iff, not_or, List.cons_prefix_cons, hslash, not_and,
    eq_comm]

/-- The body of a block comment goes up to the first star and slash, or it is all the text there
is. -/
theorem throughClosing_cases (cs : List Char) :
    (∃ inside, (throughClosing cs).1 = inside ++ ['*', '/'] ∧ Unclosed (inside ++ ['*'])) ∨
      Unclosed (throughClosing cs).1 ∧ (throughClosing cs).2 = [] := by
  fun_induction throughClosing cs with
  | case1 => exact .inr ⟨unclosed_nil, rfl⟩
  | case2 cs => exact .inl ⟨[], rfl, unclosed_cons.mpr ⟨by simp, unclosed_nil⟩⟩
  | case3 c cs hopen ih =>
    have hhead : c = '*' → (throughClosing cs).1.head? ≠ some '/' := by
      intro hc hslash
      rw [head?_throughClosing] at hslash
      obtain ⟨ds, rfl⟩ := List.head?_eq_some_iff.mp hslash
      exact hopen ds hc rfl
    rcases ih with ⟨inside, hinside, hunclosed⟩ | ⟨hunclosed, hrest⟩
    · refine .inl ⟨c :: inside, by rw [hinside, List.cons_append],
        unclosed_cons.mpr ⟨?_, hunclosed⟩⟩
      rw [hinside] at hhead
      cases inside with
      | nil => simp
      | cons d inside => exact hhead
    · exact .inr ⟨unclosed_cons.mpr ⟨hhead, hunclosed⟩, hrest⟩

/-! ### Items -/

namespace Trivia

/-- The kind and the text of an item of trivia, in front of the text behind it. -/
inductive Form : TriviaKind → List Char → List Char → Prop
  | whitespace {blanks rest : List Char} (hne : blanks ≠ [])
      (hblank : ∀ c ∈ blanks, isBlank c = true) (hrest : ∀ d ∈ rest.head?, isBlank d = false) :
      Form .whitespace blanks rest
  | lineFeed {rest : List Char} : Form .endOfLine ['\n'] rest
  | returnFeed {rest : List Char} : Form .endOfLine ['\r', '\n'] rest
  | carriageReturn {rest : List Char} (hrest : rest.head? ≠ some '\n') :
      Form .endOfLine ['\r'] rest
  | lineComment {body rest : List Char} (hbody : ∀ c ∈ body, isBreak c = false)
      (hrest : ∀ d ∈ rest.head?, isBreak d = true) :
      Form .singleLineComment ('/' :: '/' :: body) rest
  | blockComment {inside rest : List Char} (hinside : Unclosed (inside ++ ['*'])) :
      Form .multiLineComment ('/' :: '*' :: (inside ++ ['*', '/'])) rest
  | unclosedComment {body : List Char} (hbody : Unclosed body) :
      Form .multiLineComment ('/' :: '*' :: body) []

theorem form_of_next? {cs : List Char} {cut : Cut TriviaKind} (h : next? cs = some cut) :
    Form cut.kind cut.piece cut.rest := by
  cases cs with
  | nil => cases h
  | cons c cs =>
    rw [next?_cons] at h
    split at h
    · next hblank =>
      cases h
      refine .whitespace (List.cons_ne_nil _ _) ?_ of_mem_head?_dropWhile
      exact List.forall_mem_cons.mpr ⟨hblank, fun d hd => List.mem_takeWhile_imp hd⟩
    split at h
    · next hbreak =>
      split at h
      · cases h
        exact .returnFeed
      · next hpair =>
        cases h
        rcases isBreak_iff.mp hbreak with rfl | rfl
        · exact .carriageReturn fun hhead => hpair ⟨rfl, hhead⟩
        · exact .lineFeed
    split at h
    · cases h
      refine .lineComment (fun d hd => ?_) fun d hd => ?_
      · simpa using List.mem_takeWhile_imp hd
      · simpa using of_mem_head?_dropWhile d hd
    split at h
    · cases h
      rcases throughClosing_cases cs.tail with ⟨inside, hinside, hunclosed⟩ | ⟨hunclosed, hrest⟩
      · rw [hinside]
        exact .blockComment hunclosed
      · rw [hrest]
        exact .unclosedComment hunclosed
    · cases h

/-- Where no blank is there is no whitespace. -/
theorem kind_ne_whitespace {cs : List Char} (h : ∀ d ∈ cs.head?, isBlank d = false) :
    ∀ cut ∈ next? cs, cut.kind ≠ .whitespace := by
  rintro ⟨kind, piece, rest⟩ hcut rfl
  have hform := form_of_next? hcut
  have happend := (of_next? hcut).append_eq
  cases hform with
  | whitespace hne hblank _ =>
    obtain ⟨c, blanks, rfl⟩ := List.exists_cons_of_ne_nil hne
    have hc := hblank c List.mem_cons_self
    rw [h c (by rw [← happend]; rfl)] at hc
    cases hc

/-- Where a break is there is an end of a line. -/
theorem exists_next?_of_isBreak {c : Char} (h : isBreak c = true) (cs : List Char) :
    ∃ cut, next? (c :: cs) = some cut ∧ cut.kind = .endOfLine := by
  rw [next?_cons, isBlank_of_isBreak c h, if_neg Bool.false_ne_true, if_pos h]
  split <;> exact ⟨_, rfl, rfl⟩

/-! ### Lists -/

/-- A text that does not go on with trivia. -/
structure Clear (cs : List Char) : Prop where
  isBlank_eq_false : ∀ c ∈ cs.head?, isBlank c = false
  isBreak_eq_false : ∀ c ∈ cs.head?, isBreak c = false
  not_lineComment : ¬['/', '/'] <+: cs
  not_blockComment : ¬['/', '*'] <+: cs

theorem clear_of_next? {cs : List Char} (h : next? cs = none) : Clear cs := by
  have hspace : ∀ c ∈ cs.head?, isBlank c = false ∧ isBreak c = false := by
    intro c hc
    obtain ⟨tail, rfl⟩ := List.head?_eq_some_iff.mp hc
    exact Bool.or_eq_false_iff.mp (isSpace_eq_false_of_next?_eq_none h)
  refine ⟨fun c hc => (hspace c hc).1, fun c hc => (hspace c hc).2, ?_, ?_⟩
  · rintro ⟨tail, rfl⟩
    cases h
  · rintro ⟨tail, rfl⟩
    cases h

/-- The text of a list of trivia. -/
def chars (items : List Trivia) : List Char :=
  items.flatMap fun item => item.text.toList

/-- An item of a list of trivia, where `after` are the items after it on the list, `behind` is the
text behind it, and `stream` is all trivia of the text. -/
structure WellFormed (stream : List Trivia) (item : Trivia) (after : List Trivia)
    (behind : List Char) : Prop where
  whitespace : item.kind = .whitespace →
    item.text ≠ "" ∧ (∀ c ∈ item.text.toList, isBlank c = true) ∧
      ∀ next ∈ after.head?, next.kind ≠ .whitespace
  endOfLine : item.kind = .endOfLine →
    item.text = "\n" ∨ item.text = "\r\n" ∨ item.text = "\r" ∧ behind.head? ≠ some '\n'
  lineComment : item.kind = .singleLineComment →
    ∃ body, item.text.toList = '/' :: '/' :: body ∧ (∀ c ∈ body, isBreak c = false) ∧
      ((∃ next ∈ after.head?, next.kind = .endOfLine) ∨ behind = [])
  blockComment : item.kind = .multiLineComment →
    ∃ body, item.text.toList = '/' :: '*' :: body ∧
      ((∃ inside, body = inside ++ ['*', '/'] ∧ Unclosed (inside ++ ['*'])) ∨
        Unclosed body ∧ behind = [] ∧ stream.getLast? = some item)

/-- All items of a list of trivia are well formed, and no trivia comes behind the list. -/
structure ListedIn (stream items : List Trivia) (rest : List Char) : Prop where
  wellFormed : ∀ before item after, items = before ++ item :: after →
    WellFormed stream item after (chars after ++ rest)
  clear : Clear rest

/-- An item of the form that its kind has is well formed, where the item after it is read from the
text behind it and an item at the end of the text is the last one. -/
theorem Form.wellFormed {stream : List Trivia} {item : Trivia} {after : List Trivia}
    {behind : List Char} (h : Form item.kind item.text.toList behind)
    (hafter : after.head?.map Trivia.kind = (next? behind).map Cut.kind)
    (hlast : behind = [] → stream.getLast? = some item) :
    WellFormed stream item after behind := by
  obtain ⟨kind, text, span⟩ := item
  dsimp only at h
  generalize hchars : text.toList = cs at h
  have htext : text = String.ofList cs := by rw [← hchars, String.ofList_toList]
  constructor
  · rintro rfl
    cases h with
    | whitespace hne hblank hrest =>
      refine ⟨?_, hchars ▸ hblank, fun next hnext hkind => ?_⟩
      · rintro rfl
        exact hne hchars.symm
      · rw [Option.mem_def.mp hnext, Option.map_some, hkind, eq_comm,
          Option.map_eq_some_iff] at hafter
        obtain ⟨cut, hcut, hwhitespace⟩ := hafter
        exact kind_ne_whitespace hrest cut hcut hwhitespace
  · rintro rfl
    cases h with
    | lineFeed => exact .inl htext
    | returnFeed => exact .inr (.inl htext)
    | carriageReturn hrest => exact .inr (.inr ⟨htext, hrest⟩)
  · rintro rfl
    cases h with
    | @lineComment body _ hbody hrest =>
      refine ⟨body, hchars, hbody, ?_⟩
      cases behind with
      | nil => exact .inr rfl
      | cons d ds =>
        obtain ⟨cut, hcut, hkind⟩ := exists_next?_of_isBreak (hrest d rfl) ds
        rw [hcut, Option.map_some, hkind, Option.map_eq_some_iff] at hafter
        exact .inl hafter
  · rintro rfl
    cases h with
    | @blockComment inside _ hinside => exact ⟨_, hchars, .inl ⟨inside, rfl, hinside⟩⟩
    | @unclosedComment body hbody => exact ⟨body, hchars, .inr ⟨hbody, rfl, hlast rfl⟩⟩

end Trivia

/-! ### Gaps -/

theorem Gap.chars_items (position : Nat) (cs : List Char) :
    Trivia.chars (scan position cs).items = (scan position cs).piece := by
  fun_induction scan position cs with
  | case1 => rfl
  | case2 position cs cut _ gap ih =>
    rw [Trivia.chars, List.flatMap_cons, ← Trivia.chars, ih, Trivia.ofCut, String.toList_ofList]

/-- The items of a gap are well formed in a text whose last item is the only one at its end. -/
theorem Gap.listedIn_scan {front cs : List Char} (h : Apart front cs) {stream : List Trivia}
    (hstream : ∀ item ∈ (scan (byteLength front) cs).items,
      item.span.stop = byteLength (front ++ cs) → stream.getLast? = some item) :
    Trivia.ListedIn stream (scan (byteLength front) cs).items
      (scan (byteLength front) cs).rest where
  wellFormed := by
    intro before item after hitems
    obtain ⟨passed, cut, htext, hstands, hafter, hrest⟩ := exists_of_items_eq h hitems
    have hmem : item ∈ (scan (byteLength front) cs).items :=
      hitems ▸ List.mem_append_right _ List.mem_cons_self
    have hbehind : Trivia.chars after ++ (scan (byteLength front) cs).rest = cut.rest := by
      rw [hafter, hrest, chars_items, scan_append]
    obtain rfl := hstands.eq_ofCut
    have hform := Trivia.form_of_next? hstands.next?_eq
    rw [hbehind]
    refine Trivia.Form.wellFormed (by rwa [Trivia.ofCut, String.toList_ofList]) ?_ fun hnil => ?_
    · rw [hafter, head?_items, Option.map_map]
      rfl
    · refine hstream _ hmem ?_
      rw [htext, hnil, List.append_nil, byteLength_append]
      rfl
  clear := Trivia.clear_of_next? (next?_rest _ _)

/-! ### The trivia of a text -/

theorem sublist_trivia (tokens : List Token) :
    ((tokens.flatMap Token.trivia).map Trivia.piece).Sublist (tokens.flatMap Token.pieces) := by
  induction tokens with
  | nil => exact .slnil
  | cons token tokens ih =>
    rw [List.flatMap_cons, List.flatMap_cons, List.map_append]
    refine .append ?_ ih
    rw [Token.trivia, Token.pieces, List.map_append]
    exact (List.Sublist.refl _).append (List.sublist_append_right _ _)

/-- An item of trivia at the end of a text is the last one. -/
theorem getLast?_trivia_of_stop {text : String} {item : Trivia}
    (hitem : item ∈ (tokenize text).flatMap Token.trivia)
    (hstop : item.span.stop = text.utf8ByteSize) :
    ((tokenize text).flatMap Token.trivia).getLast? = some item := by
  have htile := (layout_tokenize text).tile
  rw [Nat.zero_add, byteLength_toList] at htile
  have hsublist := (sublist_trivia (tokenize text)).map Piece.span
  have hdisjoint := htile.disjoint.sublist hsublist
  obtain ⟨before, after, hstream⟩ := List.append_of_mem hitem
  rw [hstream] at hsublist hdisjoint ⊢
  cases after with
  | nil => exact List.getLast?_concat
  | cons next after =>
    -- The next item would start at the end of the text.
    have hnext := htile.start_lt next.span (hsublist.subset (by simp [Trivia.piece]))
    simp only [List.map_append, List.map_cons, List.pairwise_append,
      List.pairwise_cons] at hdisjoint
    have := hdisjoint.2.1.1 next.span (by simp [Trivia.piece])
    have hitem : item.piece.span = item.span := rfl
    rw [hitem] at this
    omega

/-- An item of trivia stands in the text with the form of its kind. -/
theorem exists_form_of_mem_trivia {text : String} {item : Trivia}
    (h : item ∈ (tokenize text).flatMap Token.trivia) :
    ∃ front rest, text.toList = front ++ (item.text.toList ++ rest) ∧
      item.span = ⟨byteLength front, byteLength item.text.toList⟩ ∧
      Trivia.Form item.kind item.text.toList rest := by
  obtain ⟨front, cut, htext, hstands⟩ := exists_standsAt_of_mem_trivia text item h
  have hform := Trivia.form_of_next? hstands.next?_eq
  rw [hstands.eq_ofCut, Trivia.ofCut, String.toList_ofList]
  exact ⟨front, cut.rest, htext, rfl, hform⟩

/-- **The trivia of a text is well formed, and there is as much of it as there can be.** The tokens
of a text make it up, with their trivia, and each stands between its two lists. On both lists an
item of whitespace is a run of blanks that is not empty and after which no other comes; an end of a
line is a line feed, a carriage return and a line feed, or a carriage return with no line feed
behind it; a comment of one line has no break in it and comes before an end of a line or at the end
of the text; and a block comment ends at the first star and slash behind its opening, or there are
none, and it is the last item of the text and goes up to its end. Behind the list is no blank, no
break and no comment. -/
theorem trivia_listedIn (text : String) :
    Consecutive [] (tokenize text) text.toList ∧
    ∀ token ∈ tokenize text, ∃ front rest,
      text.toList = front ++ (Trivia.chars token.leading ++
        (token.value.toList ++ (Trivia.chars token.trailing ++ rest))) ∧
      token.span.start = byteLength (front ++ Trivia.chars token.leading) ∧
      Trivia.ListedIn ((tokenize text).flatMap Token.trivia) token.leading
        (token.value.toList ++ (Trivia.chars token.trailing ++ rest)) ∧
      Trivia.ListedIn ((tokenize text).flatMap Token.trivia) token.trailing rest := by
  refine ⟨consecutive_tokenize text, fun token htoken => ?_⟩
  obtain ⟨front, cs, htext, hstands, hleading⟩ := exists_standsAt_of_mem_tokenize text token htoken
  obtain ⟨rest, rfl, hvalue, htrailing⟩ := hstands.exists_rest
  have hlast : ∀ item ∈ token.trivia, item.span.stop = byteLength text.toList →
      ((tokenize text).flatMap Token.trivia).getLast? = some item := by
    intro item hitem hstop
    refine getLast?_trivia_of_stop (List.mem_flatMap.mpr ⟨token, htoken, hitem⟩) ?_
    rw [hstop, byteLength_toList]
  have hclear := Trivia.clear_of_next? hstands.next?_eq_none
  have hbehind : Trivia.chars token.trailing ++
      (Gap.scan (byteLength (front ++ token.value.toList)) rest).rest = rest := by
    rw [htrailing, Gap.chars_items, Gap.scan_append]
  have hlisted : Trivia.ListedIn ((tokenize text).flatMap Token.trivia) token.trailing
      (Gap.scan (byteLength (front ++ token.value.toList)) rest).rest := by
    rw [htrailing]
    refine Gap.listedIn_scan (hstands.apart hvalue) fun item hitem hstop => ?_
    refine hlast item (List.mem_append_right _ (htrailing ▸ hitem)) ?_
    rw [hstop, htext, List.append_assoc]
  rcases hleading with hleading | ⟨hleading, hfront⟩
  · refine ⟨front, _, ?_, ?_, ?_, hlisted⟩
    · rw [hleading, hbehind]
      exact htext
    · rw [hleading, hstands.start_eq]
      exact congrArg byteLength (List.append_nil front).symm
    · rw [hleading, hbehind]
      exact ⟨by simp, hclear⟩
  · have hchars : Trivia.chars token.leading = front := by rw [hleading, Gap.chars_items, hfront]
    have hrest : (Gap.scan 0 text.toList).rest = token.value.toList ++ rest := by
      have happend := Gap.scan_append 0 text.toList
      rw [← hfront] at happend
      exact List.append_cancel_left (happend.trans htext)
    refine ⟨[], _, ?_, ?_, ?_, hlisted⟩
    · rw [hchars, hbehind]
      exact htext
    · rw [hchars, hstands.start_eq, List.nil_append]
    · rw [hbehind, ← hrest, hleading]
      refine Gap.listedIn_scan (Apart.nil_left text.toList) fun item hitem hstop => ?_
      exact hlast item (List.mem_append_left _ (hleading ▸ hitem)) hstop

/-- A word with a comment of one line behind it, and a block comment that only seems to be closed.
-/
def commentedWord : Token :=
  ⟨.identifier, "x", ⟨0, 1⟩, [],
    [⟨.whitespace, " ", ⟨1, 1⟩⟩, ⟨.singleLineComment, "// y", ⟨2, 4⟩⟩,
      ⟨.endOfLine, "\r\n", ⟨6, 2⟩⟩, ⟨.multiLineComment, "/*/ z", ⟨8, 5⟩⟩]⟩

theorem trivia_listedIn_commentedWord :
    commentedWord ∈ tokenize "x // y\r\n/*/ z" ∧ ∃ front rest,
      "x // y\r\n/*/ z".toList = front ++ (Trivia.chars commentedWord.leading ++
        (commentedWord.value.toList ++ (Trivia.chars commentedWord.trailing ++ rest))) ∧
      commentedWord.span.start = byteLength (front ++ Trivia.chars commentedWord.leading) ∧
      Trivia.ListedIn ((tokenize "x // y\r\n/*/ z").flatMap Token.trivia) commentedWord.leading
        (commentedWord.value.toList ++ (Trivia.chars commentedWord.trailing ++ rest)) ∧
      Trivia.ListedIn ((tokenize "x // y\r\n/*/ z").flatMap Token.trivia) commentedWord.trailing
        rest := by
  have htoken : commentedWord ∈ tokenize "x // y\r\n/*/ z" := by decide +kernel
  exact ⟨htoken, (trivia_listedIn _).2 commentedWord htoken⟩

end LosslessSyntax
