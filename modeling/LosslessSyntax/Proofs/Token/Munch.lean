import LosslessSyntax.Proofs.Token.Consecutive
import LosslessSyntax.Proofs.Token.Context
import LosslessSyntax.Proofs.Token.Excerpt

/-!
# The lexical grammar

What a token is follows from the text behind a place and from the one character before it, without
a run of the lexer: `Lexeme.Munches` lists the rules. A word and the digits of a number are the
longest runs there are (`LongestRun`), and a literal goes up to the first quote that is not taken
along by a backslash (`Enclosed`). A character that falls under no rule stands for itself.

The lexer follows these rules at every token (`munches_of_mem_tokenize`), as each of its scanning
functions finds the part of the text that a rule names.
-/

namespace LosslessSyntax

/-! ### Runs -/

/-- A run of characters that pass a test at the front of a text, which all such runs are part of. -/
structure LongestRun (test : Char → Bool) (cs run : List Char) : Prop where
  isPrefix : run <+: cs
  passes : ∀ c ∈ run, test c = true
  longest : ∀ other, other <+: cs → (∀ c ∈ other, test c = true) → other <+: run

theorem longestRun_takeWhile (test : Char → Bool) (cs : List Char) :
    LongestRun test cs (cs.takeWhile test) where
  isPrefix := List.takeWhile_prefix test
  passes _ hc := List.mem_takeWhile_imp hc
  longest := by
    rintro other ⟨rest, rfl⟩ hother
    rw [List.takeWhile_append_of_pos hother]
    exact List.prefix_append other _

theorem LongestRun.unique {test : Char → Bool} {cs run other : List Char}
    (h : LongestRun test cs run) (hother : LongestRun test cs other) : run = other :=
  (hother.longest run h.isPrefix h.passes).eq_of_length_le
    (h.longest other hother.isPrefix hother.passes).length_le

/-- A run that begins with a character that passes. -/
theorem longestRun_cons {test : Char → Bool} {c : Char} (hc : test c = true) (cs : List Char) :
    LongestRun test (c :: cs) (c :: cs.takeWhile test) := by
  rw [← List.takeWhile_cons_of_pos hc]
  exact longestRun_takeWhile test (c :: cs)

/-! ### Literals -/

/-- Text within a line that may stand between quotes: each backslash takes the character after it
along, and no quote is left that is not taken along. -/
inductive Enclosed (quote : Char) : List Char → Prop
  | nil : Enclosed quote []
  | plain {c : Char} {cs : List Char} (hquote : c ≠ quote) (hescape : c ≠ '\\')
      (hbreak : isBreak c = false) (h : Enclosed quote cs) : Enclosed quote (c :: cs)
  | escaped {c : Char} {cs : List Char} (hbreak : isBreak c = false) (h : Enclosed quote cs) :
      Enclosed quote ('\\' :: c :: cs)

theorem throughQuote?_of_enclosed {quote : Char} (hescape : quote ≠ '\\')
    (hbreak : isBreak quote = false) {body : List Char} (h : Enclosed quote body)
    (rest : List Char) :
    throughQuote? quote (body ++ quote :: rest) = some (body ++ [quote], rest) := by
  induction h with
  | nil =>
    rw [List.nil_append, throughQuote?_cons quote hescape, if_neg (by simp [hbreak]), if_pos rfl]
    rfl
  | plain hquote hescape hbreak _ ih =>
    rw [List.cons_append, throughQuote?_cons quote hescape, if_neg (by simp [hbreak]),
      if_neg hquote, ih]
    rfl
  | escaped hbreak _ ih =>
    rw [List.cons_append, List.cons_append, throughQuote?, if_neg (by simp [hbreak]), ih]
    rfl

theorem exists_enclosed_of_throughQuote? {quote : Char} {cs piece rest : List Char}
    (h : throughQuote? quote cs = some (piece, rest)) :
    ∃ body, Enclosed quote body ∧ cs = body ++ quote :: rest := by
  fun_induction throughQuote? quote cs generalizing piece rest with
  | case1 => cases h
  | case2 c cs hbreak ih =>
    obtain ⟨⟨_, _⟩, hs, he⟩ := Option.map_eq_some_iff.1 h
    cases he
    obtain ⟨body, hbody, rfl⟩ := ih hs
    exact ⟨'\\' :: c :: body, .escaped (by simpa using hbreak) hbody, rfl⟩
  | case3 => cases h
  | case4 cs =>
    cases h
    exact ⟨[], .nil, rfl⟩
  | case5 c cs _ hstop hne ih =>
    obtain ⟨hescape, hbreak⟩ : c ≠ '\\' ∧ ¬isBreak c = true := by simpa using hstop
    obtain ⟨⟨_, _⟩, hs, he⟩ := Option.map_eq_some_iff.1 h
    cases he
    obtain ⟨body, hbody, rfl⟩ := ih hs
    exact ⟨c :: body, .plain hne hescape (by simpa using hbreak) hbody, rfl⟩
  | case6 => cases h

/-! ### Rules -/

namespace Lexeme

/-- Whether a number starts with a dot: a digit is behind the dot, and no word goes up to it. -/
def StartsFraction (before : Option Char) (c : Char) (cs : List Char) : Prop :=
  c = '.' ∧ startsWithDigit cs = true ∧ ∀ d ∈ before, isWord d = false

/-- Whether a character is a quote that another one closes, with `body` between them. -/
def Encloses (c : Char) (cs body rest : List Char) : Prop :=
  (c = '"' ∨ c = '\'') ∧ Enclosed c body ∧ cs = body ++ c :: rest

/-- The number at the front of a text: the longest run of digits, and with it a dot and the longest
run of digits behind the dot if there is one. -/
structure MunchesNumber (text : List Char) (kind : TokenKind) (piece digits rest : List Char) :
    Prop where
  text_eq : text = digits ++ rest
  longest : LongestRun Char.isDigit text digits
  float : ∀ tail, rest = '.' :: tail → startsWithDigit tail = true →
    kind = .float ∧
      ∃ fraction, LongestRun Char.isDigit tail fraction ∧ piece = digits ++ '.' :: fraction
  integer : (∀ tail, rest = '.' :: tail → startsWithDigit tail = false) →
    kind = .integer ∧ piece = digits

/-- The kind and the text of the token that starts with `c`, where `cs` is the text behind `c` and
`before` the character in front of it. -/
structure Munches (before : Option Char) (c : Char) (cs : List Char) (kind : TokenKind)
    (piece : List Char) : Prop where
  word : startsWord c = true → kind = .identifier ∧ LongestRun isWord (c :: cs) piece
  number : c.isDigit = true → ∃ digits rest, MunchesNumber (c :: cs) kind piece digits rest
  fraction : StartsFraction before c cs →
    kind = .float ∧ ∃ digits, LongestRun Char.isDigit cs digits ∧ piece = '.' :: digits
  quoted : ∀ body rest, Encloses c cs body rest →
    kind = (if c = '"' then .string else .char) ∧ piece = c :: (body ++ [c])
  single : startsWord c = false → c.isDigit = false → ¬StartsFraction before c cs →
    (∀ body rest, ¬Encloses c cs body rest) →
    kind = (TokenKind.punctuation? c).getD .badToken ∧ piece = [c]

/-! ### The lexer and the rules -/

theorem isWord_of_startsWord {c : Char} (h : startsWord c = true) : isWord c = true := by
  simp only [startsWord, Bool.or_eq_true] at h
  simp only [isWord, isAlphanumeric, Bool.or_eq_true]
  exact h.imp_left .inl

/-- A word does not start with a digit. -/
theorem startsWord_of_isDigit {c : Char} (h : c.isDigit = true) : startsWord c = false := by
  have hle := val_le_of_isDigit h
  have hne : c ≠ '_' := by
    rintro rfl
    exact absurd hle (by decide)
  -- All letters come after the digits.
  have hupper : c.isUpper = false :=
    decide_eq_false fun hupper => absurd (UInt32.le_trans hupper.1 hle) (by decide)
  have hlower : c.isLower = false := Bool.and_eq_false_imp.mpr fun hlower =>
    absurd (UInt32.le_trans (of_decide_eq_true hlower) hle) (by decide)
  have halpha : c.isAlpha = false := Bool.or_eq_false_iff.mpr ⟨hupper, hlower⟩
  rw [startsWord, isAlphabetic_of_isAscii (isAscii_of_isDigit h), halpha, decide_eq_false hne]
  rfl

theorem munchesNumber_number {c : Char} (hc : c.isDigit = true) (cs : List Char) :
    MunchesNumber (c :: cs) (number c cs).kind (number c cs).piece
      (c :: cs.takeWhile Char.isDigit) (cs.dropWhile Char.isDigit) where
  text_eq := by rw [List.cons_append, List.takeWhile_append_dropWhile]
  longest := longestRun_cons hc cs
  float := by
    intro tail hrest hdigit
    rw [number_of_fraction hrest hdigit]
    refine ⟨rfl, _, longestRun_takeWhile Char.isDigit tail, ?_⟩
    simp [Cut.run]
  integer := by
    intro hrest
    rw [number_of_not_fraction fun tail htail => by simp [hrest tail htail]]
    exact ⟨rfl, rfl⟩

/-- Dots and quotes start no word and no run of digits. -/
private theorem startsWord_of_mark {c : Char} (h : c = '.' ∨ c = '"' ∨ c = '\'') :
    startsWord c = false ∧ c.isDigit = false := by
  rcases h with rfl | rfl | rfl <;> decide +kernel

section

variable {before : Option Char} {c : Char} {cs : List Char}

theorem next_of_startsWord (h : startsWord c = true) :
    next before c cs = .run .identifier [c] isWord cs := by
  rw [next, if_pos h]

theorem next_of_isDigit (h : c.isDigit = true) : next before c cs = number c cs := by
  rw [next, startsWord_of_isDigit h, if_neg Bool.false_ne_true, if_pos h]

theorem next_of_startsFraction (h : StartsFraction before c cs) :
    next before c cs = .run .float ['.'] Char.isDigit cs := by
  obtain ⟨rfl, hdigit, hbefore⟩ := h
  obtain ⟨hword, hdot⟩ := startsWord_of_mark (.inl rfl : '.' = '.' ∨ _)
  have hany : before.any isWord = false := by
    cases before with
    | none => rfl
    | some d => exact hbefore d rfl
  simp [next, hword, hdot, hdigit, hany]

theorem next_of_encloses {body rest : List Char} (h : Encloses c cs body rest) :
    next before c cs = ⟨if c = '"' then .string else .char, c :: (body ++ [c]), rest⟩ := by
  obtain ⟨hquote, hbody, rfl⟩ := h
  obtain ⟨hword, hdigit⟩ := startsWord_of_mark (.inr hquote)
  rcases hquote with rfl | rfl
  · have hthrough := throughQuote?_of_enclosed (by decide) rfl hbody rest
    simp [next, hword, hdigit, quoted?, hthrough]
  · have hthrough := throughQuote?_of_enclosed (by decide) rfl hbody rest
    simp [next, hword, hdigit, quoted?, hthrough]

theorem quoted?_eq_none (hquote : c = '"' ∨ c = '\'')
    (h : ∀ body rest, ¬Encloses c cs body rest) (kind : TokenKind) :
    quoted? kind c cs = none := by
  rw [quoted?, Option.map_eq_none_iff, Option.eq_none_iff_forall_ne_some]
  rintro ⟨piece, rest⟩ hthrough
  obtain ⟨body, hbody, hcs⟩ := exists_enclosed_of_throughQuote? hthrough
  exact h body _ ⟨hquote, hbody, hcs⟩

theorem next_eq_single (hword : startsWord c = false) (hdigit : c.isDigit = false)
    (hfraction : ¬StartsFraction before c cs) (hencloses : ∀ body rest, ¬Encloses c cs body rest) :
    next before c cs = single c cs := by
  have hdot : ¬(c = '.' && startsWithDigit cs && !before.any isWord) = true := by
    simp only [Bool.and_eq_true, decide_eq_true_eq, Bool.not_eq_true']
    rintro ⟨⟨hc, hdigit⟩, hbefore⟩
    refine hfraction ⟨hc, hdigit, ?_⟩
    rintro d rfl
    exact hbefore
  rw [next, hword, hdigit, if_neg Bool.false_ne_true, if_neg Bool.false_ne_true, if_neg hdot]
  split
  · next hc => rw [quoted?_eq_none (.inl hc) hencloses, Option.getD_none]
  split
  · next hc => rw [quoted?_eq_none (.inr hc) hencloses, Option.getD_none]
  · rfl

end

/-- The lexer follows the rules. -/
theorem munches_next (before : Option Char) (c : Char) (cs : List Char) :
    Munches before c cs (next before c cs).kind (next before c cs).piece where
  word := by
    intro h
    rw [next_of_startsWord h]
    exact ⟨rfl, longestRun_cons (isWord_of_startsWord h) cs⟩
  number := by
    intro h
    rw [next_of_isDigit h]
    exact ⟨_, _, munchesNumber_number h cs⟩
  fraction := by
    intro h
    rw [next_of_startsFraction h]
    exact ⟨rfl, _, longestRun_takeWhile Char.isDigit cs, rfl⟩
  quoted := by
    intro body rest h
    rw [next_of_encloses h]
    exact ⟨rfl, rfl⟩
  single := by
    intro hword hdigit hfraction hencloses
    rw [next_eq_single hword hdigit hfraction hencloses]
    exact ⟨rfl, rfl⟩

theorem kind_number (c : Char) (cs : List Char) :
    (number c cs).kind = .integer ∨ (number c cs).kind = .float := by
  rcases number_cases c cs with ⟨_, -, -, hnumber⟩ | ⟨-, hnumber⟩
  · exact .inr (by rw [hnumber]; rfl)
  · exact .inl (by rw [hnumber])

/-- A lexeme is an identifier or a literal, or a character that stands for itself. -/
theorem next_cases (before : Option Char) (c : Char) (cs : List Char) :
    (next before c cs).kind ∈ [.identifier, .integer, .float, .string, .char] ∨
      next before c cs = single c cs := by
  have hquoted (kind : TokenKind)
      (hkind : kind ∈ [.identifier, .integer, .float, .string, .char]) :
      ((quoted? kind c cs).getD (single c cs)).kind ∈
          [.identifier, .integer, .float, .string, .char] ∨
        (quoted? kind c cs).getD (single c cs) = single c cs := by
    cases h : quoted? kind c cs with
    | none => exact .inr rfl
    | some cut =>
      obtain ⟨_, -, rfl⟩ := Option.map_eq_some_iff.mp h
      exact .inl hkind
  unfold next
  split
  · exact .inl List.mem_cons_self
  split
  · rcases kind_number c cs with hnumber | hnumber
    · exact .inl (by simp [hnumber])
    · exact .inl (by simp [hnumber])
  split
  · exact .inl (by simp [Cut.run])
  split
  · exact hquoted .string (by decide)
  split
  · exact hquoted .char (by decide)
  · exact .inr rfl

/-- A bad token is one character, which starts no word and no number and is no punctuation. -/
theorem of_kind_next_eq_badToken {before : Option Char} {c : Char} {cs : List Char}
    (h : (next before c cs).kind = .badToken) :
    (next before c cs).piece = [c] ∧ startsWord c = false ∧ c.isDigit = false ∧
      TokenKind.punctuation? c = none := by
  have hsingle : next before c cs = single c cs := by
    refine (next_cases before c cs).resolve_left fun hmem => ?_
    rw [h] at hmem
    exact absurd hmem (by decide)
  refine ⟨by rw [hsingle, single], Bool.eq_false_iff.mpr fun hword => ?_,
    Bool.eq_false_iff.mpr fun hdigit => ?_, ?_⟩
  · rw [next_of_startsWord hword] at h
    cases h
  · rw [next_of_isDigit hdigit] at h
    rcases kind_number c cs with hnumber | hnumber
    · cases h.symm.trans hnumber
    · cases h.symm.trans hnumber
  · rw [hsingle, single] at h
    cases hkind : TokenKind.punctuation? c with
    | none => rfl
    | some kind =>
      -- Punctuation has a spelling, which a bad token does not.
      have htext := TokenKind.text?_of_punctuation? hkind
      rw [hkind] at h
      obtain rfl : kind = .badToken := h
      cases htext

theorem MunchesNumber.unique {text piece piece' digits digits' rest rest' : List Char}
    {kind kind' : TokenKind} (h : MunchesNumber text kind piece digits rest)
    (h' : MunchesNumber text kind' piece' digits' rest') : kind = kind' ∧ piece = piece' := by
  obtain rfl := h.longest.unique h'.longest
  obtain rfl := List.append_cancel_left (h.text_eq.symm.trans h'.text_eq)
  by_cases hfraction : ∃ tail, rest = '.' :: tail ∧ startsWithDigit tail = true
  · obtain ⟨tail, hrest, hdigit⟩ := hfraction
    obtain ⟨rfl, fraction, hrun, rfl⟩ := h.float tail hrest hdigit
    obtain ⟨rfl, fraction', hrun', rfl⟩ := h'.float tail hrest hdigit
    exact ⟨rfl, by rw [hrun.unique hrun']⟩
  · have hdot : ∀ tail, rest = '.' :: tail → startsWithDigit tail = false := by
      intro tail hrest
      rw [Bool.eq_false_iff]
      exact fun hdigit => hfraction ⟨tail, hrest, hdigit⟩
    obtain ⟨rfl, rfl⟩ := h.integer hdot
    obtain ⟨rfl, rfl⟩ := h'.integer hdot
    exact ⟨rfl, rfl⟩

/-- The rules leave no choice. -/
theorem Munches.unique {before : Option Char} {c : Char} {cs piece piece' : List Char}
    {kind kind' : TokenKind} (h : Munches before c cs kind piece)
    (h' : Munches before c cs kind' piece') : kind = kind' ∧ piece = piece' := by
  by_cases hword : startsWord c = true
  · obtain ⟨rfl, hrun⟩ := h.word hword
    obtain ⟨rfl, hrun'⟩ := h'.word hword
    exact ⟨rfl, hrun.unique hrun'⟩
  by_cases hdigit : c.isDigit = true
  · obtain ⟨_, _, hnumber⟩ := h.number hdigit
    obtain ⟨_, _, hnumber'⟩ := h'.number hdigit
    exact hnumber.unique hnumber'
  by_cases hfraction : StartsFraction before c cs
  · obtain ⟨rfl, digits, hrun, rfl⟩ := h.fraction hfraction
    obtain ⟨rfl, digits', hrun', rfl⟩ := h'.fraction hfraction
    exact ⟨rfl, by rw [hrun.unique hrun']⟩
  rw [Bool.not_eq_true] at hword hdigit
  by_cases hencloses : ∃ body rest, Encloses c cs body rest
  · obtain ⟨body, rest, hbody⟩ := hencloses
    obtain ⟨rfl, rfl⟩ := h.quoted body rest hbody
    obtain ⟨rfl, rfl⟩ := h'.quoted body rest hbody
    exact ⟨rfl, rfl⟩
  · have hnone : ∀ body rest, ¬Encloses c cs body rest :=
      fun body rest hbody => hencloses ⟨body, rest, hbody⟩
    obtain ⟨rfl, rfl⟩ := h.single hword hdigit hfraction hnone
    obtain ⟨rfl, rfl⟩ := h'.single hword hdigit hfraction hnone
    exact ⟨rfl, rfl⟩

end Lexeme

/-- **The kinds and the extents of tokens follow the lexical grammar.** The tokens of a text make it
up, with their trivia. Every one but the end of the input stands behind a front part of the text,
and covers characters from there on. The character there, the last one of the front part and the
text behind decide what it is. A letter or an underscore starts an identifier, which is the longest
run of letters, numerals and underscores. A digit starts the longest run of digits, which is a float
with a dot and the longest run of digits behind if there is one, and else an integer. A dot in front
of a digit and not behind a word starts a float. A quote that is closed on its line is a literal up
to where it is closed first; a backslash takes the character behind it along. Anything else is one
character: the punctuation that it is, or a bad token. -/
theorem munches_of_mem_tokenize (text : String) :
    Consecutive [] (tokenize text) text.toList ∧
    ∀ token ∈ tokenize text, token.kind ≠ .endToken →
      ∃ front c cs, text.toList = front ++ c :: cs ∧
        token.span = ⟨byteLength front, token.value.utf8ByteSize⟩ ∧
        token.value.toList <+: c :: cs ∧
        Lexeme.Munches front.getLast? c cs token.kind token.value.toList := by
  refine ⟨consecutive_tokenize text, fun token htoken hkind => ?_⟩
  obtain ⟨front, rest, htext, hstands, -⟩ := exists_standsAt_of_mem_tokenize text token htoken
  cases hstands with
  | endOfInput => exact absurd rfl hkind
  | @lexeme c cs lexeme leading hnone hlexeme =>
    subst hlexeme
    have hmunches := Lexeme.munches_next front.getLast? c cs
    have happend := (Lexeme.of_next front.getLast? c cs).append_eq
    refine ⟨front, c, cs, htext, ?_, ?_, ?_⟩
    · rw [Token.ofCut, utf8ByteSize_ofList]
    · rw [Token.ofCut, String.toList_ofList, ← happend]
      exact List.prefix_append _ _
    · rwa [Token.ofCut, String.toList_ofList]

/-- A literal whose backslash takes a character of several bytes along. -/
def escapedLiteral : Token :=
  ⟨.string, "\"\\é\"", ⟨2, 5⟩, [], []⟩

theorem munches_of_mem_tokenize_escapedLiteral :
    escapedLiteral ∈ tokenize "x \"\\é\"" ∧ escapedLiteral.kind ≠ .endToken ∧
      ∃ front c cs, "x \"\\é\"".toList = front ++ c :: cs ∧
        escapedLiteral.span = ⟨byteLength front, escapedLiteral.value.utf8ByteSize⟩ ∧
        escapedLiteral.value.toList <+: c :: cs ∧
        Lexeme.Munches front.getLast? c cs escapedLiteral.kind escapedLiteral.value.toList := by
  have htoken : escapedLiteral ∈ tokenize "x \"\\é\"" := by decide +kernel
  have hkind : escapedLiteral.kind ≠ .endToken := by decide
  exact ⟨htoken, hkind, (munches_of_mem_tokenize _).2 escapedLiteral htoken hkind⟩

end LosslessSyntax
