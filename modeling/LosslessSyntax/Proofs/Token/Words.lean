import LosslessSyntax.Proofs.Token.Locality
import LosslessSyntax.Tree.Operator

/-!
# Words

A word is a token without its place and its trivia. Its spelling is right (`Word.Spelled`) if the
lexer reads it as one token of its kind, or if its kind is always written in this way.

In a text a word comes back as the token that it is by itself, as long as a space or the end of the
text comes behind it (`Lexeme.Whole`). This is so for every spelling of an identifier or a literal
(`Lexeme.whole_of_tokenize`), and for the punctuation of the grammar (`Lexeme.whole_of_isSymbol`).
What is to be seen is that no word begins a comment, that a quote is closed within its word, and
that no dot meets the digits of another word.
-/

namespace LosslessSyntax

/-- The kind and the text of a token. -/
structure Word where
  kind : TokenKind
  value : String
deriving DecidableEq, Repr

/-- A token without its place and its trivia. -/
def Token.word (token : Token) : Word :=
  ⟨token.kind, token.value⟩

/-- The kinds of words that can be written in several ways. -/
def lexicalKinds : List TokenKind :=
  .identifier :: literalKinds

namespace Word

/-- The token of a text that is nothing but a word. -/
def token (word : Word) : Token :=
  { kind := word.kind, value := word.value, span := ⟨0, word.value.utf8ByteSize⟩ }

/-- The spelling of a word is right: an identifier or a literal is what the lexer reads as this one
token, and any other word is written in the way of its kind. -/
def Spelled (word : Word) : Prop :=
  if word.kind ∈ lexicalKinds then
    tokenize word.value = [word.token, .endAt word.value.utf8ByteSize]
  else word.kind.text? = some word.value

instance (word : Word) : Decidable word.Spelled :=
  inferInstanceAs (Decidable (if word.kind ∈ lexicalKinds then
    tokenize word.value = [word.token, .endAt word.value.utf8ByteSize]
  else word.kind.text? = some word.value))

end Word

/-- What can come behind a word: a space, or nothing. -/
def Spaced (tail : List Char) : Prop :=
  ∀ d ∈ tail.head?, isSpace d = true

/-- No word ends where spaces do. -/
theorem any_isWord_getLast?_of_isSpace {gap : List Char} (h : ∀ c ∈ gap, isSpace c = true) :
    gap.getLast?.any isWord = false := by
  cases hlast : gap.getLast? with
  | none => rfl
  | some c => exact (not_of_isSpace (h c (List.mem_of_getLast? hlast))).1

theorem spaced_append {gap rest : List Char} (hgap : ∀ d ∈ gap, isSpace d = true)
    (hseparated : rest ≠ [] → gap ≠ []) : Spaced (gap ++ rest) := by
  cases gap with
  | nil =>
    have hnil : rest = [] := by simpa using hseparated
    rw [hnil]
    exact nofun
  | cons d gap =>
    rintro _ ⟨⟩
    exact hgap d List.mem_cons_self

/-- No trivia begins with a character that is no space, unless it is a slash with more behind. -/
theorem Trivia.next?_eq_none {c : Char} {cs : List Char} (hc : isSpace c = false)
    (hslash : c = '/' → Spaced cs) : next? (c :: cs) = none := by
  obtain ⟨hblank, hbreak⟩ := Bool.or_eq_false_iff.mp hc
  have hcomment (d : Char) (hd : isSpace d = false) : ¬(c = '/' ∧ cs.head? = some d) := by
    rintro ⟨rfl, hhead⟩
    exact absurd (hslash rfl d hhead) (by simp [hd])
  rw [next?_cons, if_neg (by simp [hblank]), if_neg (by simp [hbreak]),
    if_neg (hcomment '/' (by decide)), if_neg (hcomment '*' (by decide))]

namespace Lexeme

/-- Some characters are a lexeme of a kind wherever they are spaced out from other words. -/
structure Whole (kind : TokenKind) (c : Char) (cs : List Char) : Prop where
  next_eq : ∀ {before : Option Char} {tail : List Char}, before.any isWord = false →
    Spaced tail → next before c (cs ++ tail) = ⟨kind, c :: cs, tail⟩
  next?_eq : ∀ {tail : List Char}, Spaced tail → Trivia.next? (c :: (cs ++ tail)) = none

/-! ### Symbols -/

/-- Whether a character always stands for itself and no word ends with it. -/
def isSymbol (c : Char) : Bool :=
  !(isWord c || c.isDigit || c = '.' || c = '"' || c = '\'')

theorem next_of_isSymbol {c : Char} (h : isSymbol c = true) (before : Option Char)
    (cs : List Char) : next before c cs = single c cs := by
  simp only [isSymbol, isWord, isAlphanumeric, Bool.not_eq_true', Bool.or_eq_false_iff,
    decide_eq_false_iff_not] at h
  obtain ⟨⟨⟨⟨⟨⟨halphabetic, -⟩, hunderscore⟩, hdigit⟩, hdot⟩, hdouble⟩, hsingle⟩ := h
  simp [next, startsWord, halphabetic, hunderscore, hdigit, hdot, hdouble, hsingle]

/-- A symbol is a lexeme. -/
theorem whole_of_isSymbol {c : Char} (h : isSymbol c = true) (hc : isSpace c = false) :
    Whole ((TokenKind.punctuation? c).getD .badToken) c [] where
  next_eq _ _ := next_of_isSymbol h _ _
  next?_eq htail := Trivia.next?_eq_none hc fun _ => htail

/-! ### Identifiers and literals -/

private theorem next_of_quote (before : Option Char) {c : Char} (hc : c = '"' ∨ c = '\'')
    (cs : List Char) : ∃ kind, next before c cs = (quoted? kind c cs).getD (single c cs) := by
  have hstarts : startsWord '"' = false ∧ startsWord '\'' = false := by decide +kernel
  rcases hc with rfl | rfl
  · exact ⟨.string, by simp [next, hstarts.1]⟩
  · exact ⟨.char, by simp [next, hstarts.2]⟩

/-- What the lexer reads as one token is a single lexeme. -/
theorem next_of_tokenize {word : Word}
    (h : tokenize word.value = [word.token, .endAt word.value.utf8ByteSize]) :
    ∃ c cs, word.value.toList = c :: cs ∧ next none c cs = ⟨word.kind, c :: cs, []⟩ ∧
      Trivia.next? (c :: cs) = none := by
  have happend := Gap.scan_append 0 word.value.toList
  have hitems := Gap.items_eq_nil_iff 0 word.value.toList
  have hnone := Gap.next?_rest 0 word.value.toList
  rw [tokenize] at h
  generalize Gap.scan 0 word.value.toList = gap at h happend hitems hnone
  obtain ⟨items, piece, rest⟩ := gap
  cases rest with
  | nil => simp [Token.scan] at h
  | cons c cs =>
    rw [Token.scan] at h
    obtain ⟨htoken, -⟩ := List.cons.inj h
    have hleading : items = [] := congrArg Token.leading htoken
    -- Without trivia in front the lexeme starts where the text does.
    obtain rfl : piece = [] := hitems.mp hleading
    have hkind : (next none c cs).kind = word.kind := congrArg Token.kind htoken
    have hvalue : String.ofList (next none c cs).piece = word.value := congrArg Token.value htoken
    have hpiece : (next none c cs).piece = c :: cs := by
      rw [← String.toList_ofList (l := (next none c cs).piece), hvalue, ← happend]
      rfl
    have hrest := (of_next none c cs).append_eq
    rw [hpiece] at hrest
    have hnil : (next none c cs).rest = [] := by simpa using hrest
    refine ⟨c, cs, happend.symm, ?_, hnone⟩
    rw [← hkind, ← hnil, ← hpiece]

/-- Spellings of identifiers and literals are lexemes. -/
theorem whole_of_tokenize {word : Word} (hkind : word.kind ∈ lexicalKinds)
    (h : tokenize word.value = [word.token, .endAt word.value.utf8ByteSize]) :
    ∃ c cs, word.value.toList = c :: cs ∧ Whole word.kind c cs := by
  obtain ⟨c, cs, hvalue, hnext, hnone⟩ := next_of_tokenize h
  have hall : ∀ k ∈ lexicalKinds, k ≠ .forwardSlash ∧ k ≠ .doubleQuote ∧ k ≠ .singleQuote := by
    decide
  obtain ⟨hslash, hdouble, hsingle⟩ := hall _ hkind
  have hquote : c = '"' ∨ c = '\'' → (throughQuote? c cs).isSome = true := by
    intro hc
    obtain ⟨kind, hquoted⟩ := next_of_quote none hc cs
    cases hthrough : throughQuote? c cs with
    | some _ => rfl
    | none =>
      -- A quote without a partner would be read as the punctuation that it is.
      rw [hnext, quoted?, hthrough] at hquoted
      rcases hc with rfl | rfl
      · exact absurd (congrArg Cut.kind hquoted) hdouble
      · exact absurd (congrArg Cut.kind hquoted) hsingle
  refine ⟨c, cs, hvalue, fun {before tail} hbefore htail => ?_, fun {tail} htail => ?_⟩
  · rw [next_congr (show before.any isWord = none.any isWord from hbefore)]
    cases tail with
    | nil => rw [List.append_nil, hnext]
    | cons d ds =>
      rw [next_append (htail d rfl) (fun hc => .inr (hquote hc)), hnext]
      rfl
  · refine Trivia.next?_eq_none (Trivia.isSpace_eq_false_of_next?_eq_none hnone) fun hc => ?_
    rw [hc, next_of_isSymbol (by decide +kernel)] at hnext
    exact absurd (congrArg Cut.kind hnext).symm hslash

end Lexeme

/-! ### Words in a text -/

namespace Token

variable {c : Char} {before : Option Char}

/-- The tokens of a text that begins with a word: the word, with the spaces behind it for its
trivia, and the tokens of the text behind. -/
theorem scan_whole {kind : TokenKind} {cs gap rest : List Char} (h : Lexeme.Whole kind c cs)
    (hbefore : before.any isWord = false) (hgap : ∀ d ∈ gap, isSpace d = true)
    (hrest : Trivia.next? rest = none) (hseparated : rest ≠ [] → gap ≠ []) (leading : List Trivia)
    (position : Nat) :
    ∃ token before' position',
      scan leading before position (c :: (cs ++ (gap ++ rest))) =
        token :: scan [] before' position' rest ∧
      token.word = ⟨kind, String.ofList (c :: cs)⟩ ∧ (token.trailing = [] ↔ gap = []) ∧
      (rest ≠ [] → before'.any isWord = false) := by
  have hspaced := spaced_append hgap hseparated
  obtain ⟨hpiece, hscan⟩ := Gap.scan_spaces hgap hrest (position + byteLength (c :: cs))
  have hitems := Gap.items_eq_nil_iff (position + byteLength (c :: cs)) (gap ++ rest)
  rw [hpiece] at hitems
  refine ⟨ofCut position ⟨kind, c :: cs, gap ++ rest⟩ leading
      (Gap.scan (position + byteLength (c :: cs)) (gap ++ rest)).items, _, _,
    scan_cons (h.next_eq hbefore hspaced) hpiece hscan leading, rfl, hitems, fun hne => ?_⟩
  -- The character before the next word is the last space of the gap.
  have hlast := any_isWord_getLast?_of_isSpace hgap
  rw [List.getLast?_append, List.getLast?_eq_some_getLast (hseparated hne)] at *
  exact hlast

/-- The tokens of a text that begins with two symbols without a space between them: the first one,
without trivia, and the tokens of the text from the second one on. -/
theorem scan_symbol {d : Char} (hc : Lexeme.isSymbol c = true) (hd : isSpace d = false)
    (hslash : d ≠ '/') (leading : List Trivia) (before : Option Char) (position : Nat)
    (cs : List Char) :
    ∃ token position', scan leading before position (c :: d :: cs) =
        token :: scan [] (some c) position' (d :: cs) ∧
      token.word = ⟨(TokenKind.punctuation? c).getD .badToken, String.singleton c⟩ ∧
      token.trailing = [] := by
  have hnone : Trivia.next? (d :: cs) = none :=
    Trivia.next?_eq_none hd fun h => absurd h hslash
  have hscan := Gap.scan_of_next?_eq_none hnone (position + byteLength [c])
  exact ⟨ofCut position (Lexeme.single c (d :: cs)) leading
      (Gap.scan (position + byteLength [c]) (d :: cs)).items, _,
    scan_cons (Lexeme.next_of_isSymbol hc before _) (congrArg Gap.piece hscan)
      (congrArg Gap.rest hscan) leading, rfl, congrArg Gap.items hscan⟩

end Token

end LosslessSyntax
