import LosslessSyntax.Proofs.Token.Excerpt
import LosslessSyntax.Proofs.Token.Munch
import LosslessSyntax.Proofs.Token.Words

/-!
# Tokens read again

A text may be read from any of its tokens on, and the tokens are those that it has from there on
(`tokenize_slice_iff`): of what was cut off a token learns only whether a word stands in front of
it, and this matters for nothing but a dot with a digit behind.

A token may also be read by itself, without the text behind it (`tokenize_value`). What made a
character stand for itself, a dot behind a word or a quote that nothing closes, leaves the same
character when it is taken away. So the tokens of a text can be written one on each line, and are
read from there with the kinds and the values that they had (`map_word_tokenize_oneALine`).
-/

namespace LosslessSyntax

/-! ### Lexemes -/

namespace Lexeme

variable {before : Option Char} {c : Char} {cs : List Char}

/-- A lexeme of a kind that is written with one character is this character. -/
theorem next_of_text? {d : Char} (h : (next before c cs).kind.text? = some (String.singleton d)) :
    c = d ∧ next before c cs = ⟨(next before c cs).kind, [d], cs⟩ := by
  have happend := (of_next before c cs).append_eq
  have htext := (faithful_next before c cs).text_eq _ h
  generalize next before c cs = cut at happend htext
  obtain ⟨kind, piece, rest⟩ := cut
  obtain rfl : piece = [d] := by
    rw [← String.toList_ofList (l := piece), htext, String.toList_singleton]
  obtain ⟨rfl, rfl⟩ := List.cons.inj happend
  exact ⟨rfl, rfl⟩

/-- A dot that a word kept from it begins a fraction where no text is in front of it. -/
theorem kind_next_none (hkind : (next before c cs).kind = .dot)
    (hdigit : startsWithDigit (next before c cs).rest = true) : (next none c cs).kind = .float := by
  obtain ⟨rfl, hnext⟩ := next_of_text? (d := '.') (by rw [hkind]; rfl)
  rw [hnext] at hdigit
  have hfraction : StartsFraction none '.' cs := ⟨rfl, hdigit, fun _ hd => nomatch hd⟩
  rw [next_of_startsFraction hfraction]
  rfl

/-- Any other lexeme is the same where no text is in front of it. -/
theorem next_none_of_not (h : ¬((next before c cs).kind = .dot ∧
    startsWithDigit (next before c cs).rest = true)) : next none c cs = next before c cs := by
  by_cases hkind : (next before c cs).kind = .dot
  · obtain ⟨rfl, hnext⟩ := next_of_text? (d := '.') (by rw [hkind]; rfl)
    have hdigit : ¬startsWithDigit cs = true := fun hdigit => h ⟨hkind, by rwa [hnext]⟩
    have hsingle (before : Option Char) : next before '.' cs = single '.' cs :=
      next_eq_single (by decide +kernel) (by decide) (fun h => hdigit h.2.1) fun _ _ h =>
        absurd h.1 (by decide)
    rw [hsingle none, hsingle before]
  · exact next_none hkind

/-- A lexeme is the same where no text is around it. -/
theorem exists_next_alone (before : Option Char) (c : Char) (cs : List Char) :
    ∃ body, (next before c cs).piece = c :: body ∧
      next none c body = ⟨(next before c cs).kind, c :: body, []⟩ := by
  have hsingle (d : Char) {kind : TokenKind} (hkind : (next before c cs).kind = kind)
      (htext : kind.text? = some (String.singleton d)) (halone : next none d [] = ⟨kind, [d], []⟩) :
      ∃ body, (next before c cs).piece = c :: body ∧
        next none c body = ⟨(next before c cs).kind, c :: body, []⟩ := by
    obtain ⟨rfl, hnext⟩ := next_of_text? (hkind ▸ htext)
    exact ⟨[], by rw [hnext], by rw [hkind, halone]⟩
  by_cases hkind : (next before c cs).kind ∈ TokenKind.contextual
  · simp only [TokenKind.contextual, List.mem_cons, List.not_mem_nil, or_false] at hkind
    rcases hkind with hdot | hdouble | hquote
    · exact hsingle '.' hdot rfl (by decide +kernel)
    · exact hsingle '"' hdouble rfl (by decide +kernel)
    · exact hsingle '\'' hquote rfl (by decide +kernel)
  · obtain ⟨body, hpiece, hnext⟩ := next_of_goesOn hkind (nofun : GoesOn _ []) nofun
    rw [List.append_nil] at hpiece
    have hdot : (next before c body).kind ≠ .dot := by
      rw [hnext]
      exact fun hdot => hkind (hdot ▸ by decide)
    refine ⟨body, hpiece, ?_⟩
    rw [next_none hdot, hnext, Cut.before, hpiece]

section

variable {kind : TokenKind} {tail : List Char}

/-- A lexeme by itself is the same at the end of a line, where no word is in front of it. -/
theorem next_append_of_alone (halone : next none c cs = ⟨kind, c :: cs, []⟩)
    (hbefore : before.any isWord = false) (htail : ∀ d ∈ tail.head?, isBreak d = true) :
    next before c (cs ++ tail) = ⟨kind, c :: cs, tail⟩ := by
  rw [next_congr (show before.any isWord = none.any isWord from hbefore)]
  cases tail with
  | nil => rw [List.append_nil, halone]
  | cons d ds =>
    have hd : isSpace d = true := by rw [isSpace, htail d rfl, Bool.or_true]
    rw [next_append hd (fun _ => .inl (htail d rfl)), halone]
    rfl

/-- No trivia begins where a lexeme is at the end of a line. -/
theorem next?_append_of_alone (halone : next none c cs = ⟨kind, c :: cs, []⟩)
    (hnone : Trivia.next? (c :: cs) = none) (htail : ∀ d ∈ tail.head?, isBreak d = true) :
    Trivia.next? (c :: (cs ++ tail)) = none := by
  refine Trivia.next?_eq_none (Trivia.isSpace_eq_false_of_next?_eq_none hnone) fun hc d hd => ?_
  -- A slash has nothing behind it, since it is a lexeme by itself.
  rw [hc, next_of_isSymbol (by decide +kernel)] at halone
  obtain rfl : cs = [] := congrArg Cut.rest halone
  rw [isSpace, htail d hd, Bool.or_true]

end

end Lexeme

/-! ### From a token on -/

/-- The tokens of a text that does not begin with trivia. -/
theorem tokenize_ofList {cs : List Char} (h : Trivia.next? cs = none) :
    tokenize (String.ofList cs) = Token.scan [] none 0 cs := by
  rw [tokenize, String.toList_ofList, Gap.scan_of_next?_eq_none h]
  rfl

namespace Token

/-- No piece of the tokens of a text starts before the text does. -/
theorem le_start_of_mem_pieces (before : Option Char) (position : Nat) (cs : List Char) :
    ∀ piece ∈ (scan [] before position cs).flatMap pieces, position ≤ piece.span.start := by
  obtain ⟨pieces, hpieces, hlayout⟩ := layout_scan [] before position cs
  rw [hpieces, List.map_nil, List.nil_append]
  exact fun piece hpiece => (hlayout.tile.start_mem _ (List.mem_map_of_mem hpiece)).1

/-- The first token of a text is at its front, and the tokens are the same where no other text is in
front of them, unless the first one is a dot that would begin a fraction there. -/
theorem exists_of_scan_eq_cons {leading : List Trivia} {before : Option Char} {position : Nat}
    {cs : List Char} {token : Token} {tokens : List Token}
    (h : scan leading before position cs = token :: tokens) :
    ∃ rest, cs = token.value.toList ++ rest ∧
      token.span = ⟨position, byteLength token.value.toList⟩ ∧
      ∀ start, scan [] none start cs = scan [] before start cs ↔
        ¬(token.kind = .dot ∧ startsWithDigit rest = true) := by
  cases cs with
  | nil =>
    rw [scan] at h
    obtain ⟨rfl, -⟩ := List.cons.inj h
    refine ⟨[], rfl, rfl, fun start => iff_of_true ?_ fun hdot =>
      absurd hdot.1 (show TokenKind.endToken ≠ .dot by decide)⟩
    rw [scan, scan]
  | cons c cs =>
    rw [scan] at h
    obtain ⟨rfl, -⟩ := List.cons.inj h
    rw [ofCut, String.toList_ofList]
    refine ⟨_, (Lexeme.of_next before c cs).append_eq.symm, rfl, fun start => ?_⟩
    by_cases hdot : (Lexeme.next before c cs).kind = .dot ∧
        startsWithDigit (Lexeme.next before c cs).rest = true
    · refine iff_of_false (fun heq => ?_) fun hnot => hnot hdot
      rw [scan, scan] at heq
      have hkind : (Lexeme.next none c cs).kind = (Lexeme.next before c cs).kind :=
        congrArg kind (List.cons.inj heq).1
      rw [Lexeme.kind_next_none hdot.1 hdot.2, hdot.1] at hkind
      cases hkind
    · refine iff_of_true ?_ hdot
      rw [scan, scan, Lexeme.next_none_of_not hdot]

end Token

/-- **A text can be read from any of its tokens on.** The text from the start of a token on has as
its tokens this token and those behind it, moved down by what was cut off, without the trivia in
front of the first. Only a dot with a digit behind is something else there: no word keeps it from
beginning a fraction. -/
theorem tokenize_slice_iff {text : String} {front back : List Token} {token : Token}
    (h : tokenize text = front ++ token :: back) :
    ∃ rest, (Source.ofString text).slice
        ⟨token.span.start, text.utf8ByteSize - token.span.start⟩ = .ok rest ∧
      (∀ piece ∈ (token.withoutLeading :: back).flatMap Token.pieces,
        token.span.start ≤ piece.span.start) ∧
      (tokenize rest = (token.withoutLeading :: back).map (Token.moveDown token.span.start) ↔
        ¬(token.kind = .dot ∧
          ∃ c, (Source.ofString text).charAt token.span.stop = .ok c ∧ c.isDigit = true)) := by
  obtain ⟨leading, before, passed, cs, htext, hnone, hscan⟩ :=
    exists_scan_of_tokenize h (List.cons_ne_nil token back)
  obtain ⟨rest, hcs, hspan, hiff⟩ := Token.exists_of_scan_eq_cons hscan
  have hstart : token.span.start = byteLength passed := congrArg Span.start hspan
  have hwhole : token.withoutLeading :: back = Token.scan [] before (byteLength passed) cs := by
    rw [Token.scan_nil_eq_modifyHead leading, hscan, List.modifyHead_cons]
  have hmoved := Token.map_moveDown_scan (byteLength passed) [] before 0 cs
  have hdigit : startsWithDigit rest = true ↔
      ∃ c, (Source.ofString text).charAt token.span.stop = .ok c ∧ c.isDigit = true := by
    have hstop : token.span.stop = byteLength (passed ++ token.value.toList) := by
      rw [hspan, byteLength_append]
      rfl
    have hbehind : (Source.ofString text).text.toList = passed ++ token.value.toList ++ rest := by
      rw [List.append_assoc, ← hcs]
      exact htext
    simp only [hstop, Source.charAt_eq_ok_iff hbehind, startsWithDigit, Option.any_eq_true]
  rw [Nat.add_zero, List.map_nil] at hmoved
  refine ⟨String.ofList cs, ?_, ?_, ?_⟩
  · have hsize : text.utf8ByteSize = byteLength passed + byteLength cs := by
      rw [← byteLength_toList, htext, byteLength_append]
    rw [hstart, Source.slice_eq_ok_iff htext, String.toList_ofList]
    exact ⟨[], (List.append_nil cs).symm, by omega⟩
  · rw [hwhole, hstart]
    exact Token.le_start_of_mem_pieces _ _ _
  · rw [tokenize_ofList hnone, hwhole, hstart, hmoved, hiff, hdigit]

/-- The digit behind a dot behind a word, as in `é.5 .5`. -/
def dottedDigit : Token :=
  ⟨.integer, "5", ⟨3, 1⟩, [], [⟨.whitespace, " ", ⟨4, 1⟩⟩]⟩

theorem tokenize_slice_iff_dottedDigit :
    tokenize "é.5 .5" =
        [⟨.identifier, "é", ⟨0, 2⟩, [], []⟩, ⟨.dot, ".", ⟨2, 1⟩, [], []⟩] ++
          dottedDigit :: [⟨.float, ".5", ⟨5, 2⟩, [], []⟩, .endAt 7] ∧
      ∃ rest, (Source.ofString "é.5 .5").slice
          ⟨dottedDigit.span.start, "é.5 .5".utf8ByteSize - dottedDigit.span.start⟩ = .ok rest ∧
        (∀ piece ∈ (dottedDigit.withoutLeading ::
            [⟨.float, ".5", ⟨5, 2⟩, [], []⟩, .endAt 7]).flatMap Token.pieces,
          dottedDigit.span.start ≤ piece.span.start) ∧
        (tokenize rest = (dottedDigit.withoutLeading ::
            [⟨.float, ".5", ⟨5, 2⟩, [], []⟩, .endAt 7]).map
              (Token.moveDown dottedDigit.span.start) ↔
          ¬(dottedDigit.kind = .dot ∧
            ∃ c, (Source.ofString "é.5 .5").charAt dottedDigit.span.stop = .ok c ∧
              c.isDigit = true)) := by
  have htokens : tokenize "é.5 .5" =
      [⟨.identifier, "é", ⟨0, 2⟩, [], []⟩, ⟨.dot, ".", ⟨2, 1⟩, [], []⟩] ++
        dottedDigit :: [⟨.float, ".5", ⟨5, 2⟩, [], []⟩, .endAt 7] := by decide +kernel
  exact ⟨htokens, tokenize_slice_iff htokens⟩

/-! ### One token on each line -/

/-- A word that is read as one token where it is all the text. -/
def Word.Alone (word : Word) : Prop :=
  tokenize word.value = [word.token, .endAt word.value.utf8ByteSize]

/-- A token is by itself what it is in a text. -/
theorem alone_of_mem_tokenize (text : String) :
    ∀ token ∈ tokenize text, token.kind ≠ .endToken → token.word.Alone := by
  intro token htoken hkind
  obtain ⟨front, rest, -, hstands, -⟩ := exists_standsAt_of_mem_tokenize text token htoken
  cases hstands with
  | endOfInput => exact absurd rfl hkind
  | @lexeme c cs lexeme leading hnone hlexeme =>
    obtain ⟨body, hpiece, halone⟩ := Lexeme.exists_next_alone front.getLast? c cs
    have happend := (Lexeme.of_next front.getLast? c cs).append_eq
    rw [hlexeme] at hpiece halone happend
    rw [hpiece, List.cons_append, List.cons.injEq] at happend
    have hgoes : GoesOn cs body := by
      intro d hd
      rw [← happend.2, List.head?_append, Option.mem_def.mp hd]
      exact .inl rfl
    have hbody := Trivia.next?_eq_none_of_goesOn hnone hgoes
    have hgap := Gap.scan_of_next?_eq_none (rfl : Trivia.next? [] = none)
      (0 + byteLength (c :: body))
    rw [Word.Alone, Token.word, Token.ofCut, hpiece, tokenize_ofList hbody,
      Token.scan_cons halone (congrArg Gap.piece hgap) (congrArg Gap.rest hgap), hgap,
      Token.scan_nil]
    simp [Token.ofCut, Word.token, utf8ByteSize_ofList]

/-- The tokens of a text whose first line is a word: the word, and the tokens of the other lines. -/
theorem Token.scan_of_alone {word : Word} (h : word.Alone) {before : Option Char}
    (hbefore : before.any isWord = false) {gap rest : List Char}
    (hgap : ∀ d ∈ gap, isBreak d = true) (hrest : Trivia.next? rest = none)
    (hseparated : rest ≠ [] → gap ≠ []) (leading : List Trivia) (position : Nat) :
    Trivia.next? (word.value.toList ++ (gap ++ rest)) = none ∧
      ∃ token before' position',
        scan leading before position (word.value.toList ++ (gap ++ rest)) =
          token :: scan [] before' position' rest ∧
        token.word = word ∧ (gap ≠ [] → before'.any isWord = false) := by
  obtain ⟨c, cs, hvalue, halone, hnone⟩ := Lexeme.next_of_tokenize h
  have hspace : ∀ d ∈ gap, isSpace d = true := fun d hd => by
    rw [isSpace, hgap d hd, Bool.or_true]
  have htail : ∀ d ∈ (gap ++ rest).head?, isBreak d = true := by
    cases gap with
    | nil =>
      have hnil : rest = [] := by simpa using hseparated
      rw [hnil]
      exact fun d hd => absurd hd (Option.not_mem_none d)
    | cons d gap =>
      rintro _ ⟨⟩
      exact hgap d List.mem_cons_self
  obtain ⟨hpiece, hscan⟩ := Gap.scan_spaces hspace hrest (position + byteLength (c :: cs))
  rw [hvalue, List.cons_append]
  refine ⟨Lexeme.next?_append_of_alone halone hnone htail, _, _, _,
    scan_cons (Lexeme.next_append_of_alone halone hbefore htail) hpiece hscan leading, ?_,
    fun hne => ?_⟩
  · rw [Token.word, ofCut, ← hvalue, String.ofList_toList]
  -- The character before the other lines is the break at the end of the first one.
  · rw [List.getLast?_append_of_ne_nil _ hne]
    exact any_isWord_getLast?_of_isSpace hspace

/-- The values of some tokens, each on a line of its own. -/
def oneALine (tokens : List Token) : String :=
  "\n".intercalate (tokens.map Token.value)

/-- The first line ends where the text does, or in a break behind which the others come. -/
private theorem exists_toList_oneALine_cons (token : Token) (tokens : List Token) :
    ∃ gap, (oneALine (token :: tokens)).toList =
        token.word.value.toList ++ (gap ++ (oneALine tokens).toList) ∧
      (∀ c ∈ gap, isBreak c = true) ∧ (tokens ≠ [] → gap ≠ []) := by
  cases tokens with
  | nil => exact ⟨[], by simp [oneALine, Token.word], nofun, fun h => absurd rfl h⟩
  | cons next tokens =>
    refine ⟨['\n'], by simp [oneALine, Token.word], ?_, fun _ => List.cons_ne_nil _ _⟩
    exact List.forall_mem_singleton.mpr (by decide)

/-- Tokens that are by themselves what they are in a text are so where each has a line. -/
theorem Token.map_word_scan_oneALine {tokens : List Token}
    (halone : ∀ token ∈ tokens, token.word.Alone) {before : Option Char}
    (hbefore : tokens ≠ [] → before.any isWord = false) (leading : List Trivia) (position : Nat) :
    Trivia.next? (oneALine tokens).toList = none ∧
      (scan leading before position (oneALine tokens).toList).map word =
        tokens.map word ++ [⟨.endToken, ""⟩] := by
  induction tokens generalizing before leading position with
  | nil =>
    rw [show (oneALine []).toList = [] from rfl, scan]
    exact ⟨rfl, rfl⟩
  | cons token tokens ih =>
    obtain ⟨htoken, htokens⟩ := List.forall_mem_cons.mp halone
    obtain ⟨gap, hlines, hgap, hne⟩ := exists_toList_oneALine_cons token tokens
    have hbelow := (ih htokens (fun _ => (rfl : none.any isWord = false)) [] 0).1
    have hseparated : (oneALine tokens).toList ≠ [] → gap ≠ [] := fun hrest => hne fun hnil =>
      hrest (by rw [hnil]; rfl)
    obtain ⟨hnone, first, before', position', hscan, hword, hbefore'⟩ := scan_of_alone htoken
      (hbefore (List.cons_ne_nil _ _)) hgap hbelow hseparated leading position
    rw [hlines, hscan, List.map_cons, hword,
      (ih htokens (fun hmore => hbefore' (hne hmore)) [] position').2]
    exact ⟨hnone, rfl⟩

/-- The kind of a token is that of the first token of its value. -/
theorem head?_tokenize_value (text : String) :
    ∀ token ∈ tokenize text, (tokenize token.value).head?.map Token.kind = some token.kind := by
  intro token htoken
  obtain ⟨body, leading, htokens, hbody, -⟩ := tokenize_eq_append text
  by_cases hkind : token.kind = .endToken
  · rw [htokens, List.mem_append, List.mem_singleton] at htoken
    rcases htoken with htoken | rfl
    · exact absurd hkind (hbody token htoken).1
    · have hempty : tokenize (String.ofList []) = [.endAt 0] :=
        (tokenize_ofList rfl).trans (Token.scan_nil none 0)
      exact congrArg (fun tokens => tokens.head?.map Token.kind) hempty
  · rw [show tokenize token.value = _ from alone_of_mem_tokenize text token htoken hkind]
    rfl

/-- **Tokens may be written one on each line.** Reading a text, writing the values of its tokens on
a line each, and reading this again gives the same kinds and values in the same order. So the kind
of a token is known from its value: tokens of any two texts that have the same value have the same
kind. -/
theorem map_word_tokenize_oneALine (text : String) :
    (tokenize (oneALine ((tokenize text).filter fun token => token.kind ≠ .endToken))).map
        Token.word = (tokenize text).map Token.word ∧
      ∀ other, ∀ token ∈ tokenize text, ∀ token' ∈ tokenize other,
        token.value = token'.value → token.kind = token'.kind := by
  constructor
  · obtain ⟨body, last, htokens, hbody, -⟩ := tokenize_eq_append text
    have hfilter : (tokenize text).filter (fun token => token.kind ≠ .endToken) = body := by
      rw [htokens, List.filter_append, List.filter_cons_of_neg (by simp [Token.endAt]),
        List.filter_nil, List.append_nil]
      exact List.filter_eq_self.mpr fun token htoken => by simp [(hbody token htoken).1]
    have halone : ∀ token ∈ body, token.word.Alone := fun token htoken =>
      alone_of_mem_tokenize text token (htokens ▸ List.mem_append_left _ htoken)
        (hbody token htoken).1
    obtain ⟨hnone, hlines⟩ := Token.map_word_scan_oneALine halone
      (fun _ => (rfl : none.any isWord = false)) [] 0
    rw [← tokenize_ofList hnone, String.ofList_toList] at hlines
    rw [hfilter, hlines, htokens, List.map_append]
    rfl
  · intro other token htoken token' htoken' hvalue
    have hkind := head?_tokenize_value text token htoken
    rw [hvalue, head?_tokenize_value other token' htoken'] at hkind
    exact (Option.some.inj hkind).symm

/-- A quote behind a word, which nothing closes. -/
def lonelyQuote : Token :=
  ⟨.doubleQuote, "\"", ⟨1, 1⟩, [], []⟩

theorem map_word_tokenize_oneALine_lonelyQuote :
    (tokenize (oneALine ((tokenize "a\".5").filter fun token => token.kind ≠ .endToken))).map
        Token.word = (tokenize "a\".5").map Token.word ∧
      lonelyQuote ∈ tokenize "a\".5" ∧ lonelyQuote.moveDown 1 ∈ tokenize "\"" ∧
      lonelyQuote.value = (lonelyQuote.moveDown 1).value ∧
      lonelyQuote.kind = (lonelyQuote.moveDown 1).kind := by
  have htoken : lonelyQuote ∈ tokenize "a\".5" := by decide +kernel
  have hother : lonelyQuote.moveDown 1 ∈ tokenize "\"" := by decide +kernel
  obtain ⟨hlines, hkind⟩ := map_word_tokenize_oneALine "a\".5"
  exact ⟨hlines, htoken, hother, rfl, hkind "\"" _ htoken _ hother rfl⟩

end LosslessSyntax
