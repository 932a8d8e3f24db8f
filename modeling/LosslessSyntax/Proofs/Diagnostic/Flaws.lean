import LosslessSyntax.Proofs.Diagnostic.Items
import LosslessSyntax.Proofs.Text.Breaks
import LosslessSyntax.Proofs.Token.Munch
import LosslessSyntax.Proofs.Token.Trivia

/-!
# The errors of a text

Whether a block comment is closed is read off its text: off how the text ends, and how long it is.
The lexer looks for a star and a slash behind the opening. The two agree on every comment of a text,
also where the end of the opening looks like a part of the closing (`Trivia.error?_cases`). A
comment that is never closed goes up to the end of the text. So nothing comes behind it, and it is
the last error there is. All other errors are about the bad tokens, one for each of them in their
order (`lexicalErrors_eq_append`).
-/

namespace LosslessSyntax

variable {text : String}

/-- A character with which neither a token nor trivia starts. -/
structure BadCharacter (c : Char) : Prop where
  isAlphabetic_eq_false : isAlphabetic c = false
  ne_underscore : c ≠ '_'
  isDigit_eq_false : c.isDigit = false
  punctuation?_eq_none : TokenKind.punctuation? c = none
  not_blank : c ≠ ' ' ∧ c ≠ '\t'
  not_break : c ≠ '\r' ∧ c ≠ '\n'

/-- An error names the one character of a bad token and has its span. -/
def LexicalError.Reports (error : LexicalError) (token : Token) : Prop :=
  ∃ c, token.value = String.singleton c ∧ BadCharacter c ∧
    error = ⟨.unexpectedCharacter c, token.span⟩

/-- An item of trivia is a block comment, and in the text behind its opening is no closing. -/
def Trivia.NeverClosed (text : String) (item : Trivia) : Prop :=
  item.kind = .multiLineComment ∧ ∃ front body, text.toList = front ++ '/' :: '*' :: body ∧
    item.span.start = byteLength front ∧ Unclosed body

/-! ### Bad tokens -/

namespace Token

variable {token : Token}

/-- A token other than the end of the input starts with a character that is not of a break. -/
theorem withinLine (h : token ∈ tokenize text) (hkind : token.kind ≠ .endToken) :
    (Source.ofString text).WithinLine token.span.start := by
  obtain ⟨front, cs, htext, hstands, -⟩ := exists_standsAt_of_mem_tokenize text token h
  cases hstands with
  | endOfInput => exact absurd rfl hkind
  | lexeme hnone _ =>
    exact ⟨front, _, _, htext, Trivia.isBreak_eq_false_of_next?_eq_none hnone, rfl⟩

/-- A bad token is one bad character, which its error names. -/
theorem exists_reports (h : token ∈ tokenize text) (hkind : token.kind = .badToken) :
    ∃ error, token.ownError? = some error ∧ error.Reports token := by
  obtain ⟨c, hvalue, hbad⟩ : ∃ c, token.value = String.singleton c ∧ BadCharacter c := by
    obtain ⟨front, cs, -, hstands, -⟩ := exists_standsAt_of_mem_tokenize text token h
    cases hstands with
    | endOfInput => cases hkind
    | @lexeme c cs _ _ hnone hlexeme =>
      subst hlexeme
      obtain ⟨hpiece, hword, hdigit, hpunctuation⟩ := Lexeme.of_kind_next_eq_badToken hkind
      obtain ⟨halphabetic, hunderscore⟩ := Bool.or_eq_false_iff.mp hword
      obtain ⟨hblank, hbreak⟩ :=
        Bool.or_eq_false_iff.mp (Trivia.isSpace_eq_false_of_next?_eq_none hnone)
      refine ⟨c, congrArg String.ofList hpiece, halphabetic, of_decide_eq_false hunderscore, hdigit,
        hpunctuation, ?_, ?_⟩
      · simpa [isBlank] using hblank
      · simpa [isBreak] using hbreak
  refine ⟨_, if_pos hkind, c, hvalue, hbad, ?_⟩
  rw [hvalue, String.toList_singleton, List.headD_cons]

/-- The errors of some tokens of a text report the bad ones, in their order. -/
theorem forall₂_reports {tokens : List Token} (h : ∀ token ∈ tokens, token ∈ tokenize text) :
    List.Forall₂ (fun token error => error.Reports token) (tokens.filter (·.kind = .badToken))
      (tokens.filterMap ownError?) := by
  induction tokens with
  | nil => exact .nil
  | cons token tokens ih =>
    obtain ⟨htoken, htokens⟩ := List.forall_mem_cons.mp h
    rw [List.filter_cons, List.filterMap_cons]
    by_cases hkind : token.kind = .badToken
    · obtain ⟨error, herror, hreports⟩ := exists_reports htoken hkind
      rw [if_pos (decide_eq_true hkind), herror]
      exact .cons hreports (ih htokens)
    · have hnone : token.ownError? = none := if_neg hkind
      rw [if_neg (by rwa [decide_eq_true_iff]), hnone]
      exact ih htokens

end Token

/-! ### Block comments -/

namespace Trivia

variable {item : Trivia}

/-- Whether a block comment is closed is seen in the text behind its opening. -/
theorem neverClosed_iff {front body : List Char} (hkind : item.kind = .multiLineComment)
    (htext : text.toList = front ++ '/' :: '*' :: body)
    (hstart : item.span.start = byteLength front) : NeverClosed text item ↔ Unclosed body := by
  refine ⟨?_, fun hunclosed => ⟨hkind, front, body, htext, hstart, hunclosed⟩⟩
  rintro ⟨-, front', body', htext', hstart', hunclosed⟩
  have hbehind := dropBytes?_byteLength_append front ('/' :: '*' :: body)
  rw [← htext, ← hstart, hstart', htext', dropBytes?_byteLength_append, Option.some_inj] at hbehind
  cases hbehind
  exact hunclosed

/-- A block comment that is never closed has an error and goes up to the end of the text, and other
trivia has none. -/
theorem error?_cases (h : item ∈ (tokenize text).flatMap Token.trivia) :
    (NeverClosed text item ∧ item.error? = some ⟨.unterminatedComment, item.span⟩ ∧
        item.span.stop = text.utf8ByteSize) ∨
      ¬NeverClosed text item ∧ item.error? = none := by
  obtain ⟨front, rest, htext, hspan, hform⟩ := exists_form_of_mem_trivia h
  have hstart : item.span.start = byteLength front := by rw [hspan]
  by_cases hkind : item.kind = .multiLineComment
  · generalize hchars : item.text.toList = cs at htext hspan hform
    rw [hkind] at hform
    cases hform with
    | @blockComment inside _ hinside =>
      have hclosed := (isClosedComment_iff hchars).mpr (List.suffix_append inside ['*', '/'])
      refine .inr ⟨?_, by rw [error?, hkind, hclosed]; rfl⟩
      rw [neverClosed_iff hkind htext hstart]
      exact fun hunclosed => hunclosed ⟨inside, rest, rfl⟩
    | @unclosedComment body hunclosed =>
      have hopen : isClosedComment item.text = false := by
        rw [Bool.eq_false_iff, Ne, isClosedComment_iff hchars]
        exact fun hsuffix => hunclosed hsuffix.isInfix
      rw [List.append_nil] at htext
      refine .inl ⟨(neverClosed_iff hkind htext hstart).mpr hunclosed, ?_, ?_⟩
      · rw [error?, hkind, hopen]
        rfl
      · rw [hspan, Span.stop, ← byteLength_append, ← htext, byteLength_toList]
  · exact .inr ⟨fun hnever => hkind hnever.1, by simp [error?, hkind]⟩

theorem NeverClosed.error?_eq_some (hnever : NeverClosed text item)
    (h : item ∈ (tokenize text).flatMap Token.trivia) :
    item.error? = some ⟨.unterminatedComment, item.span⟩ ∧ item.span.stop = text.utf8ByteSize :=
  ((error?_cases h).resolve_right fun hclosed => hclosed.1 hnever).2

end Trivia

/-! ### What errors are about -/

/-- An item of trivia is among the items of a stream where it is among its trivia. -/
theorem Token.trivia_mem_flatMap_items {tokens : List Token} {item : Trivia} :
    .trivia item ∈ tokens.flatMap items ↔ item ∈ tokens.flatMap trivia := by
  simp [items, trivia]

/-- An error of a text is about a bad token, or about a block comment that is never closed. -/
theorem exists_of_mem_lexicalErrors {error : LexicalError}
    (h : error ∈ lexicalErrors (tokenize text)) :
    (∃ token ∈ tokenize text, token.kind = .badToken ∧
        ∃ c, error = ⟨.unexpectedCharacter c, token.span⟩) ∨
      ∃ item ∈ (tokenize text).flatMap Token.trivia, item.NeverClosed text ∧
        error = ⟨.unterminatedComment, item.span⟩ := by
  rw [lexicalErrors_tokenize] at h
  obtain ⟨item, hitem, herror⟩ := List.mem_filterMap.mp h
  cases item with
  | token part =>
    obtain ⟨hkind, hflaw⟩ := Item.exists_of_error?_token herror
    exact .inl ⟨part, Token.mem_flatMap_items.mp hitem, hkind, hflaw⟩
  | trivia part =>
    have hpart := Token.trivia_mem_flatMap_items.mp hitem
    rcases Trivia.error?_cases hpart with ⟨hnever, hsome, -⟩ | ⟨-, hnone⟩
    · exact .inr ⟨part, hpart, hnever, Option.some.inj (herror.symm.trans hsome)⟩
    · cases herror.symm.trans hnone

/-- A block comment that is never closed is an error of the text. -/
theorem mem_lexicalErrors_of_neverClosed {item : Trivia}
    (h : item ∈ (tokenize text).flatMap Token.trivia) (hnever : item.NeverClosed text) :
    ⟨.unterminatedComment, item.span⟩ ∈ lexicalErrors (tokenize text) := by
  rw [lexicalErrors_tokenize]
  exact List.mem_filterMap.mpr
    ⟨.trivia item, Token.trivia_mem_flatMap_items.mpr h, (hnever.error?_eq_some h).1⟩

/-- An error of a text starts with a character that is not of a break. -/
theorem withinLine_of_mem_lexicalErrors {error : LexicalError}
    (h : error ∈ lexicalErrors (tokenize text)) :
    (Source.ofString text).WithinLine error.span.start := by
  rcases exists_of_mem_lexicalErrors h with
    ⟨token, htoken, hkind, c, rfl⟩ | ⟨item, -, ⟨-, front, body, htext, hstart, -⟩, rfl⟩
  · refine Token.withinLine htoken ?_
    rw [hkind]
    exact nofun
  · exact ⟨front, '/', _, htext, rfl, hstart⟩

/-! ### The order of errors -/

/-- Behind a block comment that is never closed is no other error. -/
theorem pairwise_flaw_ne_unterminatedComment (text : String) :
    (lexicalErrors (tokenize text)).Pairwise fun a _ => a.flaw ≠ .unterminatedComment := by
  have hdisjoint : (lexicalErrors (tokenize text)).Pairwise fun a b =>
      a.span.stop ≤ b.span.start := by
    rw [lexicalErrors_tokenize]
    refine (disjoint_items text).filterMap _ fun a b hle error herror other hother => ?_
    rwa [Item.span_of_error? herror, Item.span_of_error? hother]
  refine hdisjoint.imp_of_mem fun {a b} ha hb hle hflaw => ?_
  -- The comment goes up to the end of the text, and another error starts before it.
  have hstop : a.span.stop = text.utf8ByteSize := by
    rcases exists_of_mem_lexicalErrors ha with
      ⟨token, htoken, hkind, c, rfl⟩ | ⟨item, hitem, hnever, rfl⟩
    · cases hflaw
    · exact (hnever.error?_eq_some hitem).2
  have hlt := (withinLine_of_mem_lexicalErrors hb).lt_length
  rw [hstop] at hle
  exact absurd hlt (Nat.not_lt_of_le hle)

/-- The errors other than that of a block comment are those of the tokens. -/
theorem filter_lexicalErrors (text : String) :
    (lexicalErrors (tokenize text)).filter (·.flaw ≠ .unterminatedComment) =
      (tokenize text).filterMap Token.ownError? := by
  have htrivia (items : List Trivia) : (items.map Item.trivia).filterMap (fun item =>
      item.error?.filter (·.flaw ≠ .unterminatedComment)) = [] := by
    rw [List.filterMap_map]
    refine List.filterMap_eq_nil_iff.mpr fun item _ => ?_
    rw [Function.comp_apply, Item.error?, Trivia.error?]
    split <;> rfl
  have hown (token : Token) : (Item.token token).error?.filter
      (·.flaw ≠ .unterminatedComment) = token.ownError? := by
    rw [Item.error?, Token.ownError?]
    split <;> rfl
  have hitems (token : Token) : token.items.filterMap (fun item =>
      item.error?.filter (·.flaw ≠ .unterminatedComment)) = token.ownError?.toList := by
    rw [Token.items, List.filterMap_append, List.filterMap_cons, htrivia, htrivia, hown]
    cases token.ownError? <;> rfl
  rw [lexicalErrors_tokenize, List.filter_filterMap, List.filterMap_flatMap,
    List.filterMap_eq_flatMap_toList]
  exact List.flatMap_congr fun token _ => hitems token

/-- Where nothing comes behind a comment that is never closed, there is at most one such comment,
and it comes last. -/
private theorem exists_ending {errors : List LexicalError}
    (h : errors.Pairwise fun a _ => a.flaw ≠ .unterminatedComment) :
    ∃ ending, errors = errors.filter (·.flaw ≠ .unterminatedComment) ++ ending ∧
      (∀ a ∈ ending, ending = [a]) ∧ ∀ a ∈ ending, a.flaw = .unterminatedComment := by
  induction h with
  | nil => exact ⟨[], rfl, nofun, nofun⟩
  | @cons error errors herror _ ih =>
    by_cases hflaw : error.flaw = .unterminatedComment
    · cases errors with
      | nil => exact ⟨[error], by simp [hflaw], by simp, by simp [hflaw]⟩
      | cons other others => exact absurd hflaw (herror other List.mem_cons_self)
    · obtain ⟨ending, herrors, hending⟩ := ih
      rw [List.filter_cons, if_pos (decide_eq_true hflaw)]
      exact ⟨ending, congrArg (error :: ·) herrors, hending⟩

/-- **The errors of a text are exact.** First comes one error for each bad token, in the order of
the tokens. Such a token is a single character that is not alphabetic, not an underscore, not an
ASCII digit, not punctuation, not a blank and not of a break; the error names this character and has
the span of the token. Behind these comes at most one other error. It is there if in the text there
is a block comment without a star and a slash behind its opening, and has the span of this comment,
which goes from the opening up to the end of the text. The starts of the errors increase. -/
theorem lexicalErrors_eq_append (text : String) :
    ∃ flaws ending, lexicalErrors (tokenize text) = flaws ++ ending ∧
      List.Forall₂ (fun token error => error.Reports token)
        ((tokenize text).filter (·.kind = .badToken)) flaws ∧
      (∀ item ∈ (tokenize text).flatMap Token.trivia, item.NeverClosed text →
        ending = [⟨.unterminatedComment, item.span⟩] ∧ item.span.stop = text.utf8ByteSize) ∧
      ((∀ item ∈ (tokenize text).flatMap Token.trivia, ¬item.NeverClosed text) → ending = []) ∧
      (lexicalErrors (tokenize text)).Pairwise fun a b => a.span.start < b.span.start := by
  have hflaws := Token.forall₂_reports fun token (htoken : token ∈ tokenize text) => htoken
  rw [← filter_lexicalErrors] at hflaws
  obtain ⟨ending, herrors, hone, hending⟩ :=
    exists_ending (pairwise_flaw_ne_unterminatedComment text)
  refine ⟨_, ending, herrors, hflaws, fun item hitem hnever => ⟨?_, ?_⟩, fun hclosed => ?_,
    increasing_lexicalErrors text⟩
  · have hmem := mem_lexicalErrors_of_neverClosed hitem hnever
    rw [herrors, List.mem_append, List.mem_filter] at hmem
    exact hone _ (hmem.resolve_left fun hflaw => of_decide_eq_true hflaw.2 rfl)
  · exact (hnever.error?_eq_some hitem).2
  · refine List.eq_nil_iff_forall_not_mem.mpr fun error herror => ?_
    have hmem : error ∈ lexicalErrors (tokenize text) := by
      rw [herrors]
      exact List.mem_append_right _ herror
    rcases exists_of_mem_lexicalErrors hmem with
      ⟨token, -, -, c, rfl⟩ | ⟨item, hitem, hnever, -⟩
    · cases hending _ herror
    · exact hclosed item hitem hnever

/-- An opening with a slash behind it is not closed, although its text ends like a comment. -/
example : lexicalErrors (tokenize "§ /**/ /*/") =
    [⟨.unexpectedCharacter '§', ⟨0, 2⟩⟩, ⟨.unterminatedComment, ⟨8, 3⟩⟩] := by
  rw [lexicalErrors_tokenize]
  decide +kernel

end LosslessSyntax
