import LosslessSyntax.Proofs.Token.Rereading
import LosslessSyntax.Proofs.Token.Trivia

/-!
# Dots in front of digits

A dot in front of a digit begins a fraction, unless a word goes up to it. The lexer looks at the one
character in front of the dot, whatever that is part of. What it finds there is known from the
tokens alone, by the ways in which items of trivia (`Trivia.Form`) and tokens (`Lexeme.Ending`) can
end. In front of a token trivia ends in a space, in a break or in the slash that closes a comment
(`Gap.any_isWord_getLast?_scan`). A token ends in a character of a word if it is an identifier or a
number, or a bad token with a numeral that starts neither (`Token.any_isWord_getLast?_iff`).

So the dot stands for itself just where such a token is right in front of it
(`kind_eq_dot_iff_followsWord`).
-/

namespace LosslessSyntax

/-! ### Ends of trivia -/

theorem isWord_slash : isWord '/' = false := by
  decide +kernel

/-- No item of trivia that text comes behind ends in a word, unless it is a comment of one line,
behind which is a break. -/
theorem Trivia.Form.any_isWord_getLast? {kind : TriviaKind} {piece rest : List Char}
    (h : Form kind piece rest) (hnone : next? rest = none) (hrest : rest ≠ []) :
    piece.getLast?.any isWord = false := by
  cases h with
  | whitespace _ hblank _ =>
    exact any_isWord_getLast?_of_isSpace fun c hc => by rw [isSpace, hblank c hc, Bool.true_or]
  | lineFeed | carriageReturn =>
    exact any_isWord_getLast?_of_isSpace (List.forall_mem_singleton.mpr rfl)
  | returnFeed =>
    exact any_isWord_getLast?_of_isSpace
      (List.forall_mem_cons.mpr ⟨rfl, List.forall_mem_singleton.mpr rfl⟩)
  | lineComment _ hbreak =>
    obtain ⟨d, rest, rfl⟩ := List.exists_cons_of_ne_nil hrest
    have hd := isBreak_eq_false_of_next?_eq_none hnone
    rw [hbreak d rfl] at hd
    cases hd
  | @blockComment inside _ _ =>
    have hclosing : '/' :: '*' :: (inside ++ ['*', '/']) =
        '/' :: '*' :: (inside ++ ['*']) ++ ['/'] := by simp
    rw [hclosing, List.getLast?_concat]
    exact isWord_slash
  | unclosedComment _ => exact absurd rfl hrest

/-- A gap that text comes behind does not end in a word. -/
theorem Gap.any_isWord_getLast?_scan (position : Nat) {cs : List Char}
    (h : (scan position cs).rest ≠ []) :
    (scan position cs).piece.getLast?.any isWord = false := by
  fun_induction scan position cs with
  | case1 => rfl
  | case2 position cs cut hcut gap ih =>
    have hgap : gap.piece ++ gap.rest = cut.rest := scan_append _ _
    by_cases hpiece : gap.piece = []
    · rw [hpiece, List.nil_append] at hgap
      rw [hpiece, List.append_nil]
      refine (Trivia.form_of_next? hcut).any_isWord_getLast? ?_ (hgap ▸ h)
      rw [← hgap]
      exact next?_rest _ _
    · rw [List.getLast?_append_of_ne_nil _ hpiece]
      exact ih h

/-! ### Ends of lexemes -/

/-- A character of punctuation belongs to no word. -/
theorem isWord_of_punctuation? {c : Char} {kind : TokenKind}
    (h : TokenKind.punctuation? c = some kind) : isWord c = false := by
  unfold TokenKind.punctuation? at h
  split at h <;> cases h <;> decide +kernel

namespace Lexeme

/-- The kinds of tokens that end in a word whatever their text is. -/
def wordKinds : List TokenKind :=
  [.identifier, .integer, .float]

/-- How the text of a token can end. -/
inductive Ending : TokenKind → List Char → Prop
  | word {kind : TokenKind} {opening : List Char} {c : Char} (hkind : kind ∈ wordKinds)
      (hc : isWord c = true) : Ending kind (opening ++ [c])
  | literal {kind : TokenKind} {opening : List Char} {c : Char}
      (hkind : kind = .string ∨ kind = .char) (hc : c = '"' ∨ c = '\'') :
      Ending kind (opening ++ [c])
  | punctuation {kind : TokenKind} {c : Char} (h : TokenKind.punctuation? c = some kind) :
      Ending kind [c]
  | bad {c : Char} (hc : startsWord c = false) : Ending .badToken [c]

/-- What ends in a run of characters of words ends in a word. -/
theorem Ending.of_run {kind : TokenKind} (hkind : kind ∈ wordKinds) (opening : List Char)
    {run : List Char} (hne : run ≠ []) (hrun : ∀ c ∈ run, isWord c = true) :
    Ending kind (opening ++ run) := by
  rw [← List.dropLast_append_getLast hne, ← List.append_assoc]
  exact .word hkind (hrun _ (List.getLast_mem hne))

theorem Ending.of_digits {kind : TokenKind} (hkind : kind ∈ wordKinds) (opening : List Char)
    {cs : List Char} (h : startsWithDigit cs = true) :
    Ending kind (opening ++ cs.takeWhile Char.isDigit) := by
  refine .of_run hkind opening ?_ fun d hd => isWord_of_isDigit (List.mem_takeWhile_imp hd)
  intro hnil
  have hdigit := startsWithDigit_takeWhile_append h []
  rw [hnil] at hdigit
  cases hdigit

theorem ending_number {c : Char} (hc : c.isDigit = true) (cs : List Char) :
    Ending (number c cs).kind (number c cs).piece := by
  rcases number_cases c cs with ⟨rest, -, hdigit, hnumber⟩ | ⟨-, hnumber⟩
  · rw [hnumber]
    have hkind : TokenKind.float ∈ wordKinds := by decide
    exact .of_digits hkind _ hdigit
  · rw [hnumber]
    have hkind : TokenKind.integer ∈ wordKinds := by decide
    have hdigits : Ending .integer ([] ++ (c :: cs).takeWhile Char.isDigit) :=
      .of_digits hkind [] hc
    rwa [List.takeWhile_cons_of_pos hc] at hdigits

theorem ending_single {c : Char} (hc : startsWord c = false) (cs : List Char) :
    Ending (single c cs).kind (single c cs).piece := by
  rw [single]
  cases h : TokenKind.punctuation? c with
  | none => exact .bad hc
  | some kind => exact .punctuation h

/-- Every token ends in a way of its kind. -/
theorem ending_next (before : Option Char) (c : Char) (cs : List Char) :
    Ending (next before c cs).kind (next before c cs).piece := by
  by_cases hword : startsWord c = true
  · rw [next_of_startsWord hword]
    have hkind : TokenKind.identifier ∈ wordKinds := by decide
    refine .of_run hkind [] (List.cons_ne_nil c (cs.takeWhile isWord)) ?_
    exact List.forall_mem_cons.mpr
      ⟨isWord_of_startsWord hword, fun d hd => List.mem_takeWhile_imp hd⟩
  by_cases hdigit : c.isDigit = true
  · rw [next_of_isDigit hdigit]
    exact ending_number hdigit cs
  by_cases hfraction : StartsFraction before c cs
  · rw [next_of_startsFraction hfraction]
    have hkind : TokenKind.float ∈ wordKinds := by decide
    exact .of_digits hkind ['.'] hfraction.2.1
  rw [Bool.not_eq_true] at hword hdigit
  by_cases hencloses : ∃ body rest, Encloses c cs body rest
  · obtain ⟨body, rest, hbody⟩ := hencloses
    rw [next_of_encloses hbody, ← List.cons_append]
    refine .literal ?_ hbody.1
    split
    · exact .inl rfl
    · exact .inr rfl
  · rw [next_eq_single hword hdigit hfraction fun body rest hbody => hencloses ⟨body, rest, hbody⟩]
    exact ending_single hword cs

end Lexeme

/-! ### Ends of tokens -/

namespace Token

/-- A token is an identifier or a number, or one bad character that an identifier could go on with.
-/
def EndsInWord (token : Token) : Prop :=
  token.kind ∈ Lexeme.wordKinds ∨
    token.kind = .badToken ∧ ∃ c, token.value.toList = [c] ∧ isAlphanumeric c = true

/-- A token is a literal between quotes or punctuation, or one bad character of no word. -/
def EndsInMark (token : Token) : Prop :=
  token.kind = .string ∨ token.kind = .char ∨ (∃ c, TokenKind.punctuation? c = some token.kind) ∨
    token.kind = .badToken ∧ ∃ c, token.value.toList = [c] ∧ isAlphanumeric c = false

/-- A token is right behind another one that ends in a word. -/
def FollowsWord (token : Token) (front : List Token) : Prop :=
  ∃ previous ∈ front.getLast?, previous.touches token = true ∧ previous.EndsInWord

variable {token : Token}

/-- Punctuation has a spelling, which words and bad tokens have not. -/
private theorem text?_eq_none_of_mem {kind : TokenKind}
    (h : kind ∈ .badToken :: Lexeme.wordKinds) : kind.text? = none := by
  revert kind
  decide

theorem not_endsInWord_of_punctuation? {c : Char}
    (h : TokenKind.punctuation? c = some token.kind) : ¬token.EndsInWord := by
  intro hword
  have hnone : token.kind.text? = none := text?_eq_none_of_mem <|
    List.mem_cons.mpr (hword.symm.imp_left And.left)
  rw [TokenKind.text?_of_punctuation? h] at hnone
  cases hnone

theorem not_endsInWord_of_literal (h : token.kind = .string ∨ token.kind = .char) :
    ¬token.EndsInWord := by
  rintro (hword | ⟨hbad, -⟩)
  · rcases h with hkind | hkind <;> exact absurd (hkind ▸ hword) (by decide)
  · rcases h with hkind | hkind <;> cases hkind.symm.trans hbad

/-- A bad token is in a word or not as its character is. -/
theorem endsInWord_iff_of_badToken (hkind : token.kind = .badToken) {c : Char}
    (hvalue : token.value.toList = [c]) : token.EndsInWord ↔ isAlphanumeric c = true := by
  have hword : TokenKind.badToken ∉ Lexeme.wordKinds := by decide
  simp [EndsInWord, hword, hkind, hvalue]

/-- The last character of a token tells whether it ends in a word. -/
theorem any_isWord_getLast?_iff (h : Lexeme.Ending token.kind token.value.toList) :
    token.value.toList.getLast?.any isWord = true ↔ token.EndsInWord := by
  generalize hkind : token.kind = kind, hvalue : token.value.toList = value at h ⊢
  cases h with
  | word hword hc =>
    rw [List.getLast?_concat]
    exact iff_of_true hc (.inl (hkind ▸ hword))
  | literal hliteral hc =>
    rw [List.getLast?_concat]
    refine iff_of_false ?_ (not_endsInWord_of_literal (hkind ▸ hliteral))
    rcases hc with rfl | rfl <;> decide +kernel
  | punctuation h =>
    refine iff_of_false ?_ (not_endsInWord_of_punctuation? (hkind ▸ h))
    rw [List.getLast?_singleton, Option.any_some, isWord_of_punctuation? h]
    exact Bool.false_ne_true
  | @bad c hc =>
    rw [endsInWord_iff_of_badToken hkind hvalue, List.getLast?_singleton, Option.any_some, isWord,
      (Bool.or_eq_false_iff.mp hc).2, Bool.or_false]

/-- A token ends in a word or in a mark. -/
theorem endsInMark_iff (h : Lexeme.Ending token.kind token.value.toList) :
    token.EndsInMark ↔ ¬token.EndsInWord := by
  constructor
  · rintro (hstring | hchar | ⟨c, hc⟩ | ⟨hbad, c, hvalue, hc⟩)
    · exact not_endsInWord_of_literal (.inl hstring)
    · exact not_endsInWord_of_literal (.inr hchar)
    · exact not_endsInWord_of_punctuation? hc
    · rw [endsInWord_iff_of_badToken hbad hvalue, hc]
      exact Bool.false_ne_true
  · intro hnot
    generalize hkind : token.kind = kind, hvalue : token.value.toList = value at h
    cases h with
    | word hword _ => exact absurd (.inl (hkind ▸ hword)) hnot
    | literal hliteral _ =>
      rcases hliteral with rfl | rfl
      · exact .inl hkind
      · exact .inr (.inl hkind)
    | punctuation h => exact .inr (.inr (.inl ⟨_, hkind ▸ h⟩))
    | @bad c _ =>
      rw [endsInWord_iff_of_badToken hkind hvalue, Bool.not_eq_true] at hnot
      exact .inr (.inr (.inr ⟨hkind, c, hvalue, hnot⟩))

/-- Every token of a text but the end of the input ends in a way of its kind. -/
theorem ending_of_mem_tokenize {text : String} (h : token ∈ tokenize text)
    (hkind : token.kind ≠ .endToken) : Lexeme.Ending token.kind token.value.toList := by
  obtain ⟨front, cs, -, hstands, -⟩ := exists_standsAt_of_mem_tokenize text token h
  cases hstands with
  | endOfInput => exact absurd rfl hkind
  | @lexeme c cs lexeme leading _ hlexeme =>
    rw [ofCut, String.toList_ofList, ← hlexeme]
    exact Lexeme.ending_next front.getLast? c cs

/-! ### What is in front of a token -/

/-- A token and the gap behind it end in a word where the gap is empty and the token does. -/
theorem any_isWord_getLast?_append_gap (position : Nat) {stop : Nat} {lexeme : Cut TokenKind}
    (leading : List Trivia) {gap : Gap} (hending : Lexeme.Ending lexeme.kind lexeme.piece)
    (hgap : Gap.scan stop lexeme.rest = gap) (hrest : gap.rest ≠ []) :
    (lexeme.piece ++ gap.piece).getLast?.any isWord = true ↔
      gap.items = [] ∧ (ofCut position lexeme leading gap.items).EndsInWord := by
  have hitems : gap.items = [] ↔ gap.piece = [] := by
    rw [← hgap]
    exact Gap.items_eq_nil_iff _ _
  rw [hitems]
  by_cases hpiece : gap.piece = []
  · have hvalue : (ofCut position lexeme leading gap.items).value.toList = lexeme.piece :=
      String.toList_ofList
    have hword := @any_isWord_getLast?_iff (ofCut position lexeme leading gap.items)
      (hvalue.symm ▸ hending)
    rw [hvalue] at hword
    rw [hpiece, List.append_nil, hword, and_iff_right rfl]
  · subst hgap
    rw [List.getLast?_append_of_ne_nil _ hpiece, Gap.any_isWord_getLast?_scan stop hrest]
    exact iff_of_false Bool.false_ne_true fun h => hpiece h.1

/-- From a token on, the tokens of a text are those of the text behind a front part, whose last
character belongs to a word just where the token follows one. -/
theorem exists_scan_followsWord {text : String} {front back : List Token}
    (h : tokenize text = front ++ token :: back) :
    ∃ leading before passed rest, text.toList = passed ++ rest ∧
      scan leading before (byteLength passed) rest = token :: back ∧
      (rest ≠ [] → (before.any isWord = true ↔ token.FollowsWord front)) := by
  rcases List.eq_nil_or_concat' front with rfl | ⟨others, previous, rfl⟩
  · refine ⟨_, _, _, _, (Gap.scan_append 0 text.toList).symm, h, fun hrest => ?_⟩
    rw [Gap.any_isWord_getLast?_scan 0 hrest]
    exact iff_of_false Bool.false_ne_true nofun
  -- The token before is a lexeme and a gap, and these are all that is in front.
  · rw [List.append_assoc, List.singleton_append] at h
    obtain ⟨leading, before, passed, rest, htext, -, hscan⟩ :=
      exists_scan_of_tokenize h (List.cons_ne_nil _ _)
    cases rest with
    | nil =>
      rw [scan] at hscan
      cases (List.cons.inj hscan).2
    | cons c cs =>
      obtain ⟨lexeme, gap, hlexeme, hgap, -, hcs, -, hfirst⟩ :=
        exists_scan_cons leading before (byteLength passed) c cs
      rw [hfirst] at hscan
      obtain ⟨rfl, hbehind⟩ := List.cons.inj hscan
      have hleading : token.leading = [] := by
        have hmem : token ∈ scan [] _ _ gap.rest := hbehind ▸ List.mem_cons_self
        exact (leading_of_mem_scan _ _ _ _ token hmem).elim id id
      refine ⟨[], (lexeme.piece ++ gap.piece).getLast?, passed ++ (lexeme.piece ++ gap.piece),
        gap.rest, ?_, ?_, fun hrest => ?_⟩
      · rw [htext, hcs]
        simp only [List.append_assoc]
      · rwa [byteLength_append, byteLength_append, ← Nat.add_assoc]
      · have hending : Lexeme.Ending lexeme.kind lexeme.piece :=
          hlexeme ▸ Lexeme.ending_next before c cs
        rw [any_isWord_getLast?_append_gap (byteLength passed) leading hending hgap hrest]
        simp [FollowsWord, touches, hleading, ofCut]

/-- Where a token follows no word, it is the first one, or trivia or a mark is in front of it. -/
theorem not_followsWord_iff {text : String} {front back : List Token}
    (h : tokenize text = front ++ token :: back) :
    ¬token.FollowsWord front ↔
      ∀ previous ∈ front.getLast?, previous.touches token = false ∨ previous.EndsInMark := by
  have hending : ∀ previous ∈ front.getLast?,
      Lexeme.Ending previous.kind previous.value.toList := by
    intro previous hprevious
    have hmem : previous ∈ (tokenize text).dropLast := by
      rw [h, List.dropLast_append_of_ne_nil (List.cons_ne_nil _ _)]
      exact List.mem_append_left _ (List.mem_of_getLast? hprevious)
    exact ending_of_mem_tokenize (List.dropLast_subset _ hmem)
      (kind_ne_endToken_of_mem_dropLast text previous hmem)
  simp only [FollowsWord, not_exists, not_and]
  refine forall₂_congr fun previous hprevious => ?_
  rw [endsInMark_iff (hending previous hprevious), ← Bool.not_eq_true, imp_iff_not_or]

end Token

/-- A dot in front of a digit stands for itself behind a word, and else begins a float. -/
theorem Lexeme.next_dot_cases {cs : List Char} (hdigit : startsWithDigit cs = true)
    (before : Option Char) :
    before.any isWord = true ∧ (next before '.' cs).kind = .dot ∧
        (next before '.' cs).piece = ['.'] ∨
      ¬before.any isWord = true ∧ (next before '.' cs).kind = .float := by
  by_cases hbefore : before.any isWord = true
  · have hkind := kind_next_dot hbefore cs
    obtain ⟨-, hnext⟩ := next_of_text? (d := '.') (by rw [hkind]; rfl)
    exact .inl ⟨hbefore, hkind, by rw [hnext]⟩
  · have hfraction : StartsFraction before '.' cs := by
      refine ⟨rfl, hdigit, fun d hd => ?_⟩
      rw [Option.mem_def.mp hd, Option.any_some, Bool.not_eq_true] at hbefore
      exact hbefore
    exact .inr ⟨hbefore, by rw [next_of_startsFraction hfraction]; rfl⟩

/-- **A dot in front of a digit is a token of its own right behind a word, and else begins a
float.** Let a token start with a dot whose next byte in the text is a digit. It is nothing but this
dot just where no trivia is between it and the token before, and that is an identifier, a number or
a bad token whose character is alphanumeric. Anywhere else it is a float: where no token is before
it, behind trivia, and behind a literal between quotes, punctuation or another bad token. -/
theorem kind_eq_dot_iff_followsWord {text : String} {front back : List Token} {token : Token}
    (h : tokenize text = front ++ token :: back) (hdot : token.value.toList.head? = some '.')
    (hdigit : (encode text.toList)[token.span.start + 1]?.any isDigitByte = true) :
    (token.kind = .dot ∧ token.value = "." ↔ token.FollowsWord front) ∧
      (token.kind = .float ↔ ¬token.FollowsWord front) ∧
      (¬token.FollowsWord front ↔
        ∀ previous ∈ front.getLast?, previous.touches token = false ∨ previous.EndsInMark) := by
  obtain ⟨leading, before, passed, rest, htext, hscan, hword⟩ := Token.exists_scan_followsWord h
  rw [← and_assoc]
  refine ⟨?_, Token.not_followsWord_iff h⟩
  cases rest with
  | nil =>
    rw [Token.scan] at hscan
    obtain ⟨rfl, -⟩ := List.cons.inj hscan
    cases hdot
  | cons c cs =>
    rw [Token.scan] at hscan
    obtain ⟨htoken, -⟩ := List.cons.inj hscan
    have happend := (Lexeme.of_next before c cs).append_eq
    have hvalue : token.value.toList = (Lexeme.next before c cs).piece := by
      rw [← htoken, Token.ofCut, String.toList_ofList]
    have hkind : token.kind = (Lexeme.next before c cs).kind := by rw [← htoken, Token.ofCut]
    have hstart : token.span.start = byteLength passed := by rw [← htoken, Token.ofCut]
    obtain rfl : c = '.' := by
      obtain ⟨body, hbody⟩ := List.head?_eq_some_iff.mp hdot
      rw [← hvalue, hbody] at happend
      exact (List.cons.inj happend).1.symm
    rw [htext, hstart, getElem?_encode_succ (by decide), any_head?_encode fun c => isDigitByte_eq]
      at hdigit
    rw [← hword (List.cons_ne_nil _ _), ← String.toList_inj, hvalue, hkind]
    rcases Lexeme.next_dot_cases hdigit before with ⟨hbefore, hdotKind, hpiece⟩ | ⟨hbefore, hfloat⟩
    · simp [hbefore, hdotKind, hpiece]
    · simp [hbefore, hfloat]

/-- A sign, and behind it a numeral that starts no number, as in `+².5`. -/
def raisedNumeral : List Token :=
  [⟨.plus, "+", ⟨0, 1⟩, [], []⟩, ⟨.badToken, "²", ⟨1, 2⟩, [], []⟩]

/-- The dot behind the numeral. -/
def raisedDot : Token :=
  ⟨.dot, ".", ⟨3, 1⟩, [], []⟩

theorem kind_eq_dot_iff_followsWord_raisedDot :
    tokenize "+².5" =
        raisedNumeral ++ raisedDot :: [⟨.integer, "5", ⟨4, 1⟩, [], []⟩, .endAt 5] ∧
      raisedDot.value.toList.head? = some '.' ∧
      (encode "+².5".toList)[raisedDot.span.start + 1]?.any isDigitByte = true ∧
      (raisedDot.kind = .dot ∧ raisedDot.value = "." ↔ raisedDot.FollowsWord raisedNumeral) ∧
      (raisedDot.kind = .float ↔ ¬raisedDot.FollowsWord raisedNumeral) ∧
      (¬raisedDot.FollowsWord raisedNumeral ↔ ∀ previous ∈ raisedNumeral.getLast?,
        previous.touches raisedDot = false ∨ previous.EndsInMark) := by
  have htokens : tokenize "+².5" =
      raisedNumeral ++ raisedDot :: [⟨.integer, "5", ⟨4, 1⟩, [], []⟩, .endAt 5] := by
    decide +kernel
  have hdot : raisedDot.value.toList.head? = some '.' := by decide +kernel
  have hdigit : (encode "+².5".toList)[raisedDot.span.start + 1]?.any isDigitByte = true := by
    decide +kernel
  exact ⟨htokens, hdot, hdigit, kind_eq_dot_iff_followsWord htokens hdot hdigit⟩

/-- In a chain every other dot is one of a fraction. -/
example : (tokenize "1.2.3.4 1..5").map Token.word =
    [⟨.float, "1.2"⟩, ⟨.dot, "."⟩, ⟨.float, "3.4"⟩, ⟨.integer, "1"⟩, ⟨.dot, "."⟩, ⟨.float, ".5"⟩,
      ⟨.endToken, ""⟩] := by
  decide +kernel

end LosslessSyntax
